import Mathlib.Data.List.Infix
import Mathlib.Data.Nat.Bitwise
import Mathlib.Data.Option.Basic
import Speakeasy.SharedFileRefinement
import Speakeasy.CrtStreams

namespace Speakeasy

section

theorem and_mask32 (n : Nat) : n &&& 0xFFFFFFFF = n % 2 ^ 32 := Nat.and_two_pow_sub_one_eq_mod n 32

theorem and_mask8 (n : Nat) : n &&& 0xFF = n % 256 := Nat.and_two_pow_sub_one_eq_mod n 8

theorem wordInt_eq (n : Nat) :
    wordInt n = if n % 2 ^ 32 < 2 ^ 31 then ((n % 2 ^ 32 : Nat) : Int) else (n % 2 ^ 32 : Nat) - 2 ^ 32 := by
  have hlt := Nat.mod_lt n (Nat.two_pow_pos 32)
  unfold wordInt BitVec.toInt
  rw [BitVec.toNat_ofNat]
  split <;> split <;> omega

theorem CrtStream.signedOffset_eq (offset : Nat) : signedOffset offset = wordInt offset := by
  have hlt := Nat.mod_lt offset (Nat.two_pow_pos 32)
  have hsign : offset % 2 ^ 32 &&& 0x80000000 = 2 ^ 31 * (offset % 2 ^ 32 / 2 ^ 31 % 2) := by
    have h := Nat.and_two_pow (offset % 2 ^ 32) 31
    rw [show (0x80000000 : Nat) = 2 ^ 31 from rfl, h, Nat.toNat_testBit, Nat.mul_comm]
  unfold signedOffset
  simp only [and_mask32, hsign, Nat.shiftLeft_eq, wordInt_eq]
  split <;> omega

theorem wordInt_eq_neg_one {c : Nat} : wordInt c = -1 ↔ c % 2 ^ 32 = 0xFFFFFFFF := by
  have hlt := Nat.mod_lt c (Nat.two_pow_pos 32)
  rw [wordInt_eq]
  split <;> omega

theorem CrtStream.firstLine_eq (data : List UInt8) : firstLine data = lineOf data := by
  induction data with
  | nil => rfl
  | cons b bs ih =>
    unfold lineOf
    by_cases hb : b = 10
    · simp [firstLine, hb, List.idxOf?_cons]
    · rw [if_neg hb, ← ih]
      unfold firstLine
      cases h : bs.idxOf? 10 <;> simp [List.idxOf?_cons, hb, h]

theorem prefix_lineOf (data : List UInt8) : lineOf data <+: data := by
  induction data with
  | nil => exact List.prefix_refl _
  | cons b bs ih =>
    unfold lineOf
    split
    next => exact ⟨bs, rfl⟩
    next => exact List.cons_prefix_cons.mpr ⟨rfl, ih⟩

theorem lineOf_eq_nil {data : List UInt8} : lineOf data = [] ↔ data = [] := by
  cases data with
  | nil => exact Iff.rfl
  | cons b bs =>
    unfold lineOf
    split <;> simp

/-- A stream is at the position of the model, with its bytes, and the character that can go back is the
one before the position. -/
structure StreamRel (s : CrtStream) (m : StreamModel) : Prop where
  isOpen : s.isOpen = m.isOpen
  bytes : s.buf.bytes = m.bytes
  pos : s.file.pos = m.pos
  back : ∀ b, m.lastRead = some b → 0 < m.pos ∧ m.bytes[m.pos - 1]? = some b

namespace StreamRel

variable {s : CrtStream} {m : StreamModel}

theorem getData_eq (h : StreamRel s m) (n : Nat) :
    ∃ buf : BytesIO, buf.bytes = m.bytes ∧ s.file.getData s.buf n false =
      (m.rest.take n, { s.file with pos := m.pos + (m.rest.take n).length }, buf) := by
  obtain ⟨buf, hget, hbytes⟩ := s.file.getData_spec s.buf n false
  have hread : readAt s.buf.bytes s.file.pos n = m.rest.take n := by
    rw [readAt, if_neg (by omega), h.bytes, h.pos, Int.toNat_natCast]
    rfl
  refine ⟨buf, hbytes.trans h.bytes, ?_⟩
  have hcursor : (if s.file.pos = s.buf.bytes.length ∧ false = true then 0 else s.file.pos) = s.file.pos :=
    if_neg fun hend => absurd hend.2 Bool.false_ne_true
  rw [hget, hcursor, hread, h.pos]

theorem seek_eq (f : FileObject) (buf : BytesIO) (pos : Nat) :
    ∃ buf', buf'.bytes = buf.bytes ∧ f.seek buf pos 0 = (some pos, { f with pos := pos }, buf') := by
  obtain ⟨buf', hbytes, hseek⟩ := f.seek_spec buf pos 0
  have htarget : seekTarget buf.bytes.length f.pos pos 0 = some pos := by
    rw [seekTarget, if_neg (by omega), Int.toNat_natCast]
  exact ⟨buf', hbytes, by rw [hseek, htarget]; rfl⟩

/-- Past bytes that were read, the last one of them can go back. -/
theorem pass (h : StreamRel s m) {data : List UInt8} (hdata : data <+: m.rest) {file : FileObject}
    {buf : BytesIO} (hpos : file.pos = m.pos + data.length) (hbytes : buf.bytes = m.bytes) :
    StreamRel { s with file := file, buf := buf } (m.pass data) := by
  refine ⟨h.isOpen, hbytes, hpos, fun b hb => ?_⟩
  simp only [StreamModel.pass] at hb ⊢
  by_cases hnil : data = []
  · simp only [hnil, List.getLast?_nil, Option.none_or, List.length_nil, Nat.add_zero] at hb ⊢
    exact h.back b hb
  · have hlen := List.length_pos_iff.mpr hnil
    have hlast : data.getLast? = some b := by
      rw [List.getLast?_eq_some_getLast hnil, Option.some_or] at hb
      rw [List.getLast?_eq_some_getLast hnil]
      exact hb
    refine ⟨by omega, ?_⟩
    obtain ⟨rest, hrest⟩ := hdata
    have hindex : m.pos + data.length - 1 = m.pos + (data.length - 1) := by omega
    rw [hindex, ← List.getElem?_drop, show m.bytes.drop m.pos = data ++ rest from hrest.symm,
      List.getElem?_append_left (by omega), ← List.getLast?_eq_getElem?]
    exact hlast

/-- At another position no character can go back. -/
theorem move (h : StreamRel s m) {file : FileObject} {buf : BytesIO} {pos : Nat}
    (hpos : file.pos = pos) (hbytes : buf.bytes = m.bytes) :
    StreamRel { s with file := file, buf := buf } { m with pos := pos, lastRead := none } :=
  ⟨h.isOpen, hbytes, hpos, fun b hb => by cases hb⟩

theorem fread (h : StreamRel s m) (hopen : m.isOpen) {buffer size count : Nat}
    (htotal : size * count < 2 ^ 63) :
    let data := if buffer = 0 then [] else m.rest.take (size * count)
    (s.fread buffer size count).1 = .value (data.length / size : Nat) data ∧
      StreamRel (s.fread buffer size count).2 (m.pass data) := by
  intro data
  have hnil : StreamRel s (m.pass []) := by
    have hrel := h.pass (List.nil_prefix ..) (h.pos.trans (Nat.add_zero _).symm) h.bytes
    exact hrel
  have hs : s.isOpen = true := h.isOpen.trans hopen
  by_cases hempty : buffer = 0 ∨ size = 0 ∨ count = 0
  · have hdata : data = [] := by
      rcases hempty with hz | hz | hz <;> simp [data, hz]
    have hguard : buffer = 0 ∨ size = 0 ∨ count = 0 ∨ ¬s.isOpen := by
      rcases hempty with hz | hz | hz <;> simp [hz]
    rw [CrtStream.fread, if_pos hguard, hdata]
    exact ⟨by simp, hnil⟩
  · have hguard : ¬(buffer = 0 ∨ size = 0 ∨ count = 0 ∨ ¬s.isOpen) := by
      simp only [not_or, not_not] at hempty ⊢
      exact ⟨hempty.1, hempty.2.1, hempty.2.2, hs⟩
    have hfits : ¬(2 ^ 63 ≤ size * count ∧ s.file.pos ≠ s.buf.size) := fun hover => by omega
    have hdata : data = m.rest.take (size * count) := if_neg fun hz => hempty (Or.inl hz)
    obtain ⟨buf, hbytes, hget⟩ := h.getData_eq (size * count)
    rw [← hdata] at hget
    rw [CrtStream.fread, if_neg hguard]
    simp only [if_neg hfits, hget]
    have hrel : StreamRel { s with file := { s.file with pos := m.pos + data.length }, buf := buf }
        (m.pass data) := h.pass (by rw [hdata]; exact List.take_prefix ..) rfl hbytes
    by_cases hnone : data = []
    · rw [if_pos hnone, hnone]
      rw [hnone] at hrel
      exact ⟨by simp, hrel⟩
    · rw [if_neg hnone]
      exact ⟨rfl, hrel⟩

theorem fgets (h : StreamRel s m) (hopen : m.isOpen) (str numChars : Nat) :
    (s.fgets str numChars).1 = (m.step StreamModel.writeEnd (.fgets str numChars)).1 ∧
      StreamRel (s.fgets str numChars).2 (m.step StreamModel.writeEnd (.fgets str numChars)).2 := by
  have hs : s.isOpen = true := h.isOpen.trans hopen
  have hlt := Nat.mod_lt numChars (Nat.two_pow_pos 32)
  have hword := wordInt_eq numChars
  unfold CrtStream.fgets
  simp only [and_mask32, StreamModel.step]
  by_cases hroom : str = 0 ∨ ¬(1 < numChars % 2 ^ 32 ∧ numChars % 2 ^ 32 < 0x80000000)
  · have hguard : str = 0 ∨ ¬(1 < numChars % 2 ^ 32 ∧ numChars % 2 ^ 32 < 0x80000000) ∨ ¬s.isOpen := by
      rcases hroom with hz | hz
      · exact Or.inl hz
      · exact Or.inr (Or.inl hz)
    have hzero : (if str = 0 then 0 else (wordInt numChars - 1).toNat) = 0 := by
      split
      next => rfl
      next hstr =>
        have hbad := hroom.resolve_left hstr
        split at hword <;> omega
    rw [if_pos hguard, hzero, List.take_zero]
    exact ⟨rfl, h⟩
  · have hstr : str ≠ 0 := fun hz => hroom (Or.inl hz)
    have hsize : 1 < numChars % 2 ^ 32 ∧ numChars % 2 ^ 32 < 0x80000000 := by
      by_contra hbad
      exact hroom (Or.inr hbad)
    have hguard : ¬(str = 0 ∨ ¬(1 < numChars % 2 ^ 32 ∧ numChars % 2 ^ 32 < 0x80000000) ∨ ¬s.isOpen) := by
      rintro (hz | hz | hz)
      · exact hstr hz
      · exact hz hsize
      · exact hz hs
    have hcount : (if str = 0 then 0 else (wordInt numChars - 1).toNat) = numChars % 2 ^ 32 - 1 := by
      rw [if_neg hstr]
      split at hword <;> omega
    obtain ⟨buf, hbytes, hget⟩ := h.getData_eq (numChars % 2 ^ 32 - 1)
    rw [if_neg hguard, hcount]
    simp only [hget]
    by_cases hnone : m.rest.take (numChars % 2 ^ 32 - 1) = []
    · rw [if_pos hnone, if_pos (lineOf_eq_nil.mpr hnone), hnone]
      refine ⟨rfl, h.isOpen, hbytes, rfl, h.back⟩
    · have hline : ¬lineOf (m.rest.take (numChars % 2 ^ 32 - 1)) = [] := fun hz =>
        hnone (lineOf_eq_nil.mp hz)
      rw [if_neg hnone, if_neg hline, CrtStream.firstLine_eq, h.pos]
      obtain ⟨buf', hbytes', hseek⟩ := seek_eq
        { s.file with pos := m.pos + (m.rest.take (numChars % 2 ^ 32 - 1)).length } buf
        (m.pos + (lineOf (m.rest.take (numChars % 2 ^ 32 - 1))).length)
      rw [hseek]
      refine ⟨rfl, h.pass ((prefix_lineOf _).trans (List.take_prefix ..)) rfl (hbytes'.trans hbytes)⟩

theorem fgetc (h : StreamRel s m) (hopen : m.isOpen) :
    s.fgetc.1 = (m.step StreamModel.writeEnd .fgetc).1 ∧
      StreamRel s.fgetc.2 (m.step StreamModel.writeEnd .fgetc).2 := by
  have hs : s.isOpen = true := h.isOpen.trans hopen
  obtain ⟨buf, hbytes, hget⟩ := h.getData_eq 1
  have hget' : s.file.getData s.buf 1 false =
      (m.rest.take 1, { s.file with pos := m.pos + (m.rest.take 1).length }, buf) := hget
  unfold CrtStream.fgetc StreamModel.step
  rw [if_pos hs, hget']
  cases hrest : m.rest with
  | nil => exact ⟨rfl, h.isOpen, hbytes, rfl, h.back⟩
  | cons b bs =>
    refine ⟨rfl, h.pass ?_ rfl hbytes⟩
    rw [hrest]
    exact ⟨bs, rfl⟩

/-- The character that was read just before is the one that the stream reads again. -/
theorem ungetc (h : StreamRel s m) (hopen : m.isOpen) {c : Nat} {b : UInt8} (hc : wordInt c ≠ -1)
    (hlast : m.lastRead = some b) (hb : c % 256 = b.toNat) :
    (s.ungetc c).1 = .value (c % 256 : Nat) [] ∧
      StreamRel (s.ungetc c).2 { m with pos := m.pos - 1, lastRead := none } := by
  have hs : s.isOpen = true := h.isOpen.trans hopen
  obtain ⟨hpos, hbyte⟩ := h.back b hlast
  have hmask : c % 2 ^ 32 &&& 0xFF = c % 256 := by
    rw [and_mask8, Nat.mod_mod_of_dvd c (Nat.pow_dvd_pow 2 (by omega : 8 ≤ 32))]
  have hguard : ¬(c % 2 ^ 32 = 0xFFFFFFFF ∨ ¬s.isOpen) := by
    rintro (hz | hz)
    · exact hc (wordInt_eq_neg_one.mpr hz)
    · exact hz hs
  obtain ⟨buf, hbytes, hseek⟩ := seek_eq s.file s.buf (m.pos - 1)
  have hmoved : StreamRel { s with file := { s.file with pos := m.pos - 1 }, buf := buf }
      { m with pos := m.pos - 1, lastRead := none } := h.move rfl (hbytes.trans h.bytes)
  obtain ⟨buf', hbytes', hget⟩ := hmoved.getData_eq 1
  have hread : (m.bytes.drop (m.pos - 1)).take 1 = [b] := by
    obtain ⟨hlt, hbe⟩ := List.getElem?_eq_some_iff.mp hbyte
    rw [List.drop_eq_getElem_cons hlt, hbe]
    rfl
  have hget' : FileObject.getData { s.file with pos := m.pos - 1 } buf 1 false =
      ([b], { s.file with pos := m.pos - 1 + 1 }, buf') := by
    have hread' : StreamModel.rest { m with pos := m.pos - 1, lastRead := none } = m.bytes.drop (m.pos - 1) := rfl
    rw [hread', hread] at hget
    exact hget
  obtain ⟨buf'', hbytes'', hseek'⟩ := seek_eq { s.file with pos := m.pos - 1 + 1 } buf' (m.pos - 1)
  have hsame : ¬([b] : List UInt8) ≠ [UInt8.ofNat (c % 256)] := by
    rw [hb]
    simp
  have hpos' : ¬m.pos = 0 := by omega
  unfold CrtStream.ungetc
  simp only [and_mask32, if_neg hguard, h.pos, if_neg hpos', hmask, hseek, hget', if_neg hsame, hseek']
  exact ⟨trivial, h.move rfl (hbytes''.trans hbytes')⟩

theorem seekStream (h : StreamRel s m) (hopen : m.isOpen) {offset origin : Nat}
    (hfits : ∀ target, m.target offset origin = some target → target < 2 ^ 63) :
    (s.seekStream (CrtStream.signedOffset offset) origin).1 =
        (m.step StreamModel.writeEnd (.fseek offset origin)).1 ∧
      StreamRel (s.seekStream (CrtStream.signedOffset offset) origin).2
        (m.step StreamModel.writeEnd (.fseek offset origin)).2 := by
  have hs : s.isOpen = true := h.isOpen.trans hopen
  have hstart : (s.seekOrigin origin).map (· + wordInt offset) = m.target offset origin := by
    unfold CrtStream.seekOrigin
    rw [h.pos, BytesIO.size, h.bytes]
    rcases origin with _ | _ | _ | origin <;> simp [StreamModel.target]
  unfold CrtStream.seekStream StreamModel.step
  rw [if_pos hs, CrtStream.signedOffset_eq]
  cases hst : s.seekOrigin origin with
  | none =>
    rw [hst, Option.map_none] at hstart
    simp only [← hstart]
    exact ⟨trivial, h⟩
  | some start =>
    rw [hst, Option.map_some] at hstart
    have htarget := hfits _ hstart.symm
    simp only [← hstart]
    by_cases hneg : start + wordInt offset < 0
    · rw [if_pos hneg, if_pos hneg]
      exact ⟨rfl, h⟩
    · have hover : ¬2 ^ 63 ≤ start + wordInt offset := Int.not_le.mpr htarget
      obtain ⟨pos, hpos⟩ := Int.eq_ofNat_of_zero_le (Int.not_lt.mp hneg)
      obtain ⟨buf, hbytes, hseek⟩ := seek_eq s.file s.buf pos
      rw [if_neg hneg, if_neg hneg, if_neg hover, hpos, hseek]
      exact ⟨rfl, h.move rfl (hbytes.trans h.bytes)⟩

/-- A write at the end keeps the bytes before it and the position. -/
theorem writeStream (h : StreamRel s m) (hopen : m.isOpen) (data : List UInt8) :
    StreamRel (s.writeStream data) (m.writeEnd data) := by
  have hs : s.isOpen = true := h.isOpen.trans hopen
  have hbytes : (s.file.addData s.buf data).2.bytes = m.bytes ++ data := by
    rw [FileObject.addData_bytes, h.bytes]
  unfold CrtStream.writeStream StreamModel.writeEnd
  rw [if_pos hs]
  by_cases hdata : data = []
  · rw [if_pos hdata]
    rw [hdata, List.append_nil] at hbytes
    rw [hdata]
    exact ⟨h.isOpen, hbytes, h.pos, h.back⟩
  · rw [if_neg hdata]
    exact ⟨h.isOpen, hbytes, h.pos, fun b hb => by cases hb⟩

end StreamRel

end

section

namespace StreamRel

variable {s : CrtStream} {m : StreamModel}

theorem step (h : StreamRel s m) {op : StreamCall} (hop : m.Allows op) :
    (s.step op).1 = (m.step StreamModel.writeEnd op).1 ∧
      StreamRel (s.step op).2 (m.step StreamModel.writeEnd op).2 := by
  obtain ⟨hopen, hop⟩ := hop
  have hs : s.isOpen = true := h.isOpen.trans hopen
  cases op with
  | fread buffer size count => exact h.fread hopen hop
  | fwrite buffer size count memory =>
    simp only [CrtStream.step, CrtStream.fwrite, StreamModel.step]
    split
    next => exact ⟨rfl, h⟩
    next => exact ⟨rfl, h.writeStream hopen _⟩
  | fputc c =>
    have hbyte : UInt8.ofNat (c % 256) = UInt8.ofNat c := by
      rw [UInt8.ofNat_mod_size]
    simp only [CrtStream.step, CrtStream.fputc, StreamModel.step, and_mask8, hbyte]
    exact ⟨trivial, h.writeStream hopen _⟩
  | fputs text => exact ⟨rfl, h.writeStream hopen text⟩
  | fgets str numChars => exact h.fgets hopen str numChars
  | fgetc => exact h.fgetc hopen
  | ungetc c =>
    obtain ⟨hc, b, hlast, hb⟩ := hop
    exact h.ungetc hopen hc hlast hb
  | fseek offset origin => exact h.seekStream hopen hop
  | ftell =>
    simp only [CrtStream.step, CrtStream.ftell, StreamModel.step]
    rw [if_pos hs, h.pos]
    exact ⟨rfl, h⟩
  | fclose => exact ⟨rfl, rfl, h.bytes, h.pos, h.back⟩

end StreamRel

/-- Over every run of calls that the model allows, a stream gives the answers of the model, and has its
content and its position. -/
def StreamRefines (write : StreamModel → List UInt8 → StreamModel) (s : CrtStream) (m : StreamModel) : Prop :=
  ∀ ops, AnsweredRuns.Allowed StreamModel.Allows (StreamModel.step write) m ops →
    let code := AnsweredRuns.answers CrtStream.step s ops
    let model := AnsweredRuns.answers (StreamModel.step write) m ops
    code.1 = model.1 ∧ code.2.buf.bytes = model.2.bytes ∧ code.2.file.pos = model.2.pos

theorem StreamRel.refines {s : CrtStream} {m : StreamModel} (h : StreamRel s m) :
    StreamRefines StreamModel.writeEnd s m := by
  intro ops hops
  obtain ⟨hanswers, hend⟩ :=
    AnsweredRuns.answers_of_simulation (fun s t op hr hop => hr.step hop) h hops
  exact ⟨hanswers, hend.bytes, hend.pos⟩

/-- A stream of each mode starts at the beginning of the bytes that the mode leaves. -/
theorem openStreamFile_rel (existing : Option BytesIO) (mode : StreamMode) :
    Option.Rel StreamRel (CrtStream.openStreamFile existing mode.text)
      (StreamModel.start (existing.map BytesIO.bytes) mode) := by
  have hnew : ∀ (buf : BytesIO) (append : Bool),
      StreamRel ⟨{ FileObject.init none with data := some 0, append := append }, buf, true⟩
        ⟨buf.bytes, 0, append, none, true⟩ := fun buf append =>
    ⟨rfl, rfl, rfl, fun b hb => by cases hb⟩
  cases existing with
  | none =>
    cases mode with
    | r => exact Option.Rel.none
    | rPlus => exact Option.Rel.none
    | w => exact Option.Rel.some (hnew ⟨[], 0⟩ false)
    | wPlus => exact Option.Rel.some (hnew ⟨[], 0⟩ false)
    | a => exact Option.Rel.some (hnew ⟨[], 0⟩ true)
    | aPlus => exact Option.Rel.some (hnew ⟨[], 0⟩ true)
  | some buf =>
    cases mode with
    | r => exact Option.Rel.some (hnew buf false)
    | rPlus => exact Option.Rel.some (hnew buf false)
    | w => exact Option.Rel.some (hnew ⟨[], 0⟩ false)
    | wPlus => exact Option.Rel.some (hnew ⟨[], 0⟩ false)
    | a => exact Option.Rel.some (hnew buf true)
    | aPlus => exact Option.Rel.some (hnew buf true)

/-- Streams refine an array of bytes with one position, in which a write stores its bytes at the end. -/
theorem openStreamFile_refines (existing : Option BytesIO) (mode : StreamMode) :
    Option.Rel (StreamRefines StreamModel.writeEnd) (CrtStream.openStreamFile existing mode.text)
      (StreamModel.start (existing.map BytesIO.bytes) mode) := by
  generalize hs : CrtStream.openStreamFile existing mode.text = s
  generalize hm : StreamModel.start (existing.map BytesIO.bytes) mode = m
  have hrel : Option.Rel StreamRel s m := by
    rw [← hs, ← hm]
    exact openStreamFile_rel existing mode
  cases hrel with
  | none => exact Option.Rel.none
  | some h => exact Option.Rel.some h.refines

/-- The position after a write is not past its bytes, as it is in C. -/
theorem openStreamFile_not_refines_writeC :
    ¬∀ existing mode, Option.Rel (StreamRefines StreamModel.writeC)
      (CrtStream.openStreamFile existing (StreamMode.text mode))
      (StreamModel.start (existing.map BytesIO.bytes) mode) := by
  intro h
  cases h none .wPlus with
  | some hrun =>
    have hpos := (hrun [.fputc 97, .ftell] ⟨⟨rfl, trivial⟩, ⟨rfl, trivial⟩, trivial⟩).1
    revert hpos
    decide

end

end Speakeasy
