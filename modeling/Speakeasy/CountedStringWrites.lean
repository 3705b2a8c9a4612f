import Speakeasy.CountedStrings
import Speakeasy.DeviceList

namespace Speakeasy

open PageEngine MemoryManager CountedString

section Alloc

variable {ε : Type} [PageEngine ε] [LawfulPageEngine ε] {env : MemEnv} {outside : Nat → Prop} {limit : Nat}
  {s s' : MemoryManager ε}

/-- An allocation unmaps nothing. -/
theorem MemoryManager.memMap_keeps_mapped (hi : s.Inv outside) {a : MapArgs} {base : Nat}
    (h : memMap env s a = (.ok base, s')) {x : Nat} (hx : Mapped s.emuEng x) : Mapped s'.emuEng x := by
  unfold memMap at h
  split at h
  next =>
    unfold memMapSmall at h
    by_cases hn : s.blockBase = 0 ∨
        s.blockBase + pageSize < s.blockBase + s.blockOffset + (a.size + (0x10 - a.size % 0x10))
    · simp only [if_pos hn] at h
      cases hv : getValidRanges env s pageSize none with
      | error e => simp [hv] at h
      | ok r =>
        obtain ⟨b, total⟩ := r
        obtain ⟨eng, hm, hmapped⟩ := getValidRanges_map hi.reserves hv permMemRwx
        simp only [hv, hm, takeFromBlock] at h
        obtain ⟨-, rfl⟩ := Prod.mk.inj h
        exact (hmapped x).mpr (Or.inr hx)
    · simp only [if_neg hn, takeFromBlock] at h
      obtain ⟨-, rfl⟩ := Prod.mk.inj h
      exact hx
  next =>
    unfold memMapLarge at h
    cases hv : getValidRanges env s a.size a.base with
    | error e => simp [hv] at h
    | ok r =>
      obtain ⟨b, total⟩ := r
      obtain ⟨eng, hm, hmapped⟩ := getValidRanges_map hi.reserves hv a.perms
      simp only [hv, hm] at h
      obtain ⟨-, rfl⟩ := Prod.mk.inj h
      exact (hmapped x).mpr (Or.inr hx)

end Alloc

namespace GuestMemory

/-- The structure at an address. -/
def stringAt {ε : Type} (arch : Arch) (g : GuestMemory ε) (a : Nat) : CountedString :=
  CountedString.cast arch (g.bytes.readBytes a (size arch))

end GuestMemory

/-- An address is not in the structure at `a`. -/
def Beyond (arch : Arch) (a x : Nat) : Prop := x < a ∨ a + size arch ≤ x

namespace LoggedGuest

variable {ε : Type} [PageEngine ε] {arch : Arch} {t t' : LoggedGuest ε} {a : Nat} {us : CountedString}
  {data : List UInt8}

/-- The guest after a write. -/
def wrote (t : LoggedGuest ε) (a : Nat) (data : List UInt8) : LoggedGuest ε :=
  ⟨{ t.guest with bytes := t.guest.bytes.writeBytes a data }, t.writes ++ [(a, data)]⟩

theorem memWrite_ok_iff : t.memWrite a data = .ok t' ↔ t.guest.RangeMapped a data.length ∧ t' = t.wrote a data := by
  unfold memWrite GuestMemory.memWrite
  by_cases h : t.guest.RangeMapped a data.length
  · rw [if_pos h]
    constructor
    · intro heq
      exact ⟨h, (Except.ok.inj heq).symm⟩
    · rintro ⟨-, rfl⟩
      rfl
  · rw [if_neg h]
    constructor
    · intro heq
      cases heq
    · rintro ⟨hmapped, -⟩
      exact absurd hmapped h

theorem memWrite_ok (h : t.guest.RangeMapped a data.length) : t.memWrite a data = .ok (t.wrote a data) :=
  memWrite_ok_iff.mpr ⟨h, rfl⟩

theorem storeString_ok_iff : t.storeString arch a us data = .ok t' ↔
    t.guest.RangeMapped us.buffer data.length ∧ t.guest.RangeMapped a (us.bytes arch).length ∧
      t' = (t.wrote us.buffer data).wrote a (us.bytes arch) := by
  unfold storeString
  by_cases h : t.guest.RangeMapped us.buffer data.length
  · rw [memWrite_ok h]
    exact memWrite_ok_iff.trans ⟨fun hw => ⟨h, hw⟩, And.right⟩
  · cases hw : t.memWrite us.buffer data with
    | error e =>
      refine iff_of_false ?_ fun hall => h hall.1
      intro heq
      cases heq
    | ok t'' => exact absurd (memWrite_ok_iff.mp hw).1 h

omit [PageEngine ε] in
theorem stringAt_wrote (hfits : us.Fits arch) : (t.wrote a (us.bytes arch)).guest.stringAt arch a = us := by
  have hlen := bytes_length hfits.padding
  have hread : (t.guest.bytes.writeBytes a (us.bytes arch)).readBytes a (size arch) = us.bytes arch := by
    rw [← hlen]
    exact ByteMemory.readBytes_writeBytes_self _ _ _
  show CountedString.cast arch ((t.guest.bytes.writeBytes a (us.bytes arch)).readBytes a (size arch)) = us
  rw [hread]
  exact cast_bytes hfits

omit [PageEngine ε] in
theorem wrote_beyond (hfits : us.Fits arch) {x : Nat} (hx : Beyond arch a x) :
    (t.wrote a (us.bytes arch)).guest.bytes x = t.guest.bytes x :=
  ByteMemory.writeBytes_outside (by rwa [bytes_length hfits.padding])

/-- The allocated array is mapped, and a structure holds its address. -/
theorem memAlloc_ok [LawfulPageEngine ε] (arch : Arch) {env : MemEnv} {outside : Nat → Prop} {limit : Nat}
    (hi : t.guest.mgr.Inv outside) (he : env.Limited limit) (hb : t.guest.mgr.Below limit)
    (hlimit : limit < 256 ^ arch.ptrSize) {n ptr : Nat} {tag : PyStr}
    (h : t.memAlloc env n tag = .ok (ptr, t')) :
    t'.guest.bytes = t.guest.bytes ∧ t'.writes = t.writes ∧ t'.guest.RangeMapped ptr n ∧
      ptr < 256 ^ arch.ptrSize ∧ ∀ b k, t.guest.RangeMapped b k → t'.guest.RangeMapped b k := by
  unfold memAlloc at h
  cases hm : memMap env t.guest.mgr { size := n, tag := some tag } with
  | mk r mgr =>
    rw [hm] at h
    cases r with
    | error e => cases h
    | ok base =>
      obtain ⟨rfl, rfl⟩ := Prod.mk.inj (Except.ok.inj h)
      obtain ⟨hi', -, hnew, -, hle, -⟩ := DriverState.memMap_allocated hi he hb rfl hm
      refine ⟨rfl, rfl, hnew.rangeMapped (g := ⟨mgr, t.guest.bytes⟩) hi', ?_, fun b k hbk i hik => ?_⟩
      · have hle' : base + n ≤ limit := hle
        omega
      · exact memMap_keeps_mapped hi hm (hbk i hik)

end LoggedGuest

/-- The string at `a` is `d` now, with `data` behind its first `start` bytes, and only the structure and the
rest of the buffer were written. -/
structure Stored {ε : Type} (arch : Arch) (g : GuestMemory ε) (t : LoggedGuest ε) (a : Nat) (d : CountedString)
    (start : Nat) (data : List UInt8) : Prop where
  header : t.guest.stringAt arch a = d
  length : d.length = start + data.length
  le : d.length ≤ d.maximumLength
  log : t.guest.bytes = g.bytes.writeAll t.writes
  inside : ∀ w ∈ t.writes, a ≤ w.1 ∧ w.1 + w.2.length ≤ a + size arch ∨
    d.buffer + start ≤ w.1 ∧ w.1 + w.2.length ≤ d.buffer + d.maximumLength
  text : ∀ i (h : i < data.length), Beyond arch a (d.buffer + start + i) →
    t.guest.bytes (d.buffer + start + i) = data[i]

section Store

variable {ε : Type} [PageEngine ε] {arch : Arch} {g : GuestMemory ε} {t : LoggedGuest ε} {a : Nat}
  {d : CountedString} {data : List UInt8}

omit [PageEngine ε] in
theorem writeAll_concat (m : ByteMemory) (ws : List (Nat × List UInt8)) (w : Nat × List UInt8) :
    m.writeAll (ws ++ [w]) = (m.writeAll ws).writeBytes w.1 w.2 := ByteMemory.writeAll_append m ws [w]

omit [PageEngine ε] in
/-- A text that fits is stored, with more behind it. -/
theorem stored_wrote (hbytes : t.guest.bytes = g.bytes) (hwrites : t.writes = []) (hfits : d.Fits arch)
    (more : List UInt8) (hlen : d.length = data.length) (hroom : (data ++ more).length ≤ d.maximumLength) :
    Stored arch g ((t.wrote d.buffer (data ++ more)).wrote a (d.bytes arch)) a d 0 data where
  header := LoggedGuest.stringAt_wrote hfits
  length := by rw [hlen, Nat.zero_add]
  le := by
    rw [List.length_append] at hroom
    omega
  log := by
    show (t.guest.bytes.writeBytes d.buffer (data ++ more)).writeBytes a (d.bytes arch) =
      g.bytes.writeAll ((t.writes ++ [(d.buffer, data ++ more)]) ++ [(a, d.bytes arch)])
    rw [writeAll_concat, writeAll_concat, hwrites, hbytes]
    rfl
  inside w hw := by
    have hmem : w ∈ t.writes ++ [(d.buffer, data ++ more)] ++ [(a, d.bytes arch)] := hw
    rw [hwrites, List.nil_append, List.mem_append, List.mem_singleton, List.mem_singleton] at hmem
    rcases hmem with rfl | rfl
    · exact Or.inr ⟨Nat.le_refl _, Nat.add_le_add_left hroom _⟩
    · exact Or.inl ⟨Nat.le_refl _, Nat.le_of_eq (congrArg (a + ·) (bytes_length hfits.padding))⟩
  text i hi hx := by
    have hi' : i < (data ++ more).length := by
      rw [List.length_append]
      omega
    have hkeep : ((t.wrote d.buffer (data ++ more)).wrote a (d.bytes arch)).guest.bytes (d.buffer + 0 + i) =
        t.guest.bytes.writeBytes d.buffer (data ++ more) (d.buffer + 0 + i) := LoggedGuest.wrote_beyond hfits hx
    rw [hkeep, Nat.add_zero, ByteMemory.writeBytes_inside hi', List.getElem_append_left hi]

omit [PageEngine ε] in
/-- Where a text is stored, it lies in the structure or in its buffer. -/
theorem stored_inv {start : Nat} {us : CountedString} {text : List UInt8} (hfits : us.Fits arch)
    (h : Stored arch g ((t.wrote us.buffer text).wrote a (us.bytes arch)) a d start data) :
    d = us ∧ (text.length ≤ 16 ∨ text.length ≤ us.maximumLength) := by
  have heq : d = us := h.header.symm.trans (LoggedGuest.stringAt_wrote hfits)
  have hsize : size arch ≤ 16 := by cases arch <;> decide
  refine ⟨heq, ?_⟩
  rcases h.inside (us.buffer, text) (List.mem_append_left _ (List.mem_append_right _ List.mem_cons_self)) with
    ⟨hge, hle⟩ | ⟨-, hle⟩
  · exact Or.inl (by dsimp only at hge hle; omega)
  · rw [heq] at hle
    exact Or.inr (by dsimp only at hle; omega)

end Store

namespace GuestMemory

variable {ε : Type} [PageEngine ε] {arch : Arch} {env : MemEnv} {g : GuestMemory ε} {a dst src : Nat}
  {s d : CountedString} {data : List UInt8} {cs us : List Nat}

/-- A structure in mapped memory. -/
structure HasHeader (arch : Arch) (g : GuestMemory ε) (a : Nat) (s : CountedString) : Prop where
  mapped : g.RangeMapped a (size arch)
  cast : g.stringAt arch a = s

/-- A counted array of bytes, in mapped memory. -/
structure Counted (arch : Arch) (g : GuestMemory ε) (a : Nat) (s : CountedString) (data : List UInt8) : Prop where
  header : g.HasHeader arch a s
  length : s.length = data.length
  mapped : g.RangeMapped s.buffer s.length
  holds : g.bytes.Holds s.buffer data
  nonnull : s.buffer = 0 → data = []

/-- A string to write to, with its buffer in mapped memory. -/
structure Destination (arch : Arch) (g : GuestMemory ε) (a : Nat) (d : CountedString) : Prop where
  header : g.HasHeader arch a d
  le : d.length ≤ d.maximumLength
  mapped : g.RangeMapped d.buffer d.maximumLength
  nonnull : d.buffer = 0 → d.maximumLength = 0

theorem HasHeader.castAt_eq (h : g.HasHeader arch a s) : g.castAt arch a = .ok s := by
  unfold castAt
  rw [memRead_ok h.mapped]
  exact congrArg Except.ok h.cast

theorem HasHeader.fits (h : g.HasHeader arch a s) : s.Fits arch := by
  rw [← h.cast]
  exact fits_cast (ByteMemory.readBytes_length _ _ _)

theorem readArray_eq {n : Nat} (h : g.RangeMapped a n) : g.readArray a n = .ok (g.bytes.readBytes a n) := by
  unfold readArray
  rw [memRead_ok h]
  rfl

/-- The bytes of a counted array, as far as they are read. -/
theorem Counted.readArray_take (h : g.Counted arch a s data) {n : Nat} (hn : n ≤ s.length) :
    g.readArray s.buffer n = .ok (data.take n) := by
  have hpart := h.holds.part (show 0 + n ≤ data.length by rw [Nat.zero_add, ← h.length]; exact hn)
  rw [Nat.add_zero, List.drop_zero] at hpart
  rw [readArray_eq (h.mapped.mono hn), hpart]

theorem Counted.readArray_eq (h : g.Counted arch a s data) : g.readArray s.buffer s.length = .ok data := by
  rw [h.readArray_take (Nat.le_refl _), h.length, List.take_length]

omit [PageEngine ε] in
/-- Only the structure is written, and the string is empty. -/
theorem stored_empty (hfits : d.Fits arch) (hlen : d.length = 0) :
    Stored arch g (g.logged.wrote dst (d.bytes arch)) dst d 0 [] where
  header := LoggedGuest.stringAt_wrote hfits
  length := hlen
  le := by omega
  log := rfl
  inside w hw := by
    rw [List.mem_singleton.mp (show w ∈ [(dst, d.bytes arch)] from hw)]
    exact Or.inl ⟨Nat.le_refl _, Nat.le_of_eq (congrArg (dst + ·) (bytes_length hfits.padding))⟩
  text i hi := absurd hi (Nat.not_lt_zero i)

section Copy

theorem setLength_of_lt (d : CountedString) {n : Nat} (h : n < 0x10000) : d.setLength n = { d with length := n } := by
  unfold CountedString.setLength
  rw [Nat.mod_eq_of_lt h]

theorem HasHeader.write (h : g.HasHeader arch dst d) {d' : CountedString} (hfits : d'.Fits arch) :
    g.logged.memWrite dst (d'.bytes arch) = .ok (g.logged.wrote dst (d'.bytes arch)) :=
  LoggedGuest.memWrite_ok (by rw [bytes_length hfits.padding]; exact h.mapped)

/-- The copy is the source, truncated to the destination. -/
theorem rtlCopyUnicodeString_spec (hd : g.Destination arch dst d)
    (hs : src = 0 ∧ data = [] ∨ src ≠ 0 ∧ g.Counted arch src s data) :
    ∃ t, g.rtlCopyUnicodeString arch dst src = .ok t ∧
      Stored arch g t dst { d with length := (data.take d.maximumLength).length } 0 (data.take d.maximumLength) := by
  have hfits := hd.header.fits
  have hnone : data.take d.maximumLength = [] → g.logged.memWrite dst ((d.setLength 0).bytes arch) =
      .ok (g.logged.wrote dst ((d.setLength 0).bytes arch)) ∧
      Stored arch g (g.logged.wrote dst ((d.setLength 0).bytes arch)) dst
        { d with length := (data.take d.maximumLength).length } 0 (data.take d.maximumLength) := by
    intro hempty
    rw [hempty]
    exact ⟨hd.header.write (hfits.setLength 0), stored_empty (hfits.setLength 0) rfl⟩
  unfold rtlCopyUnicodeString
  rw [hd.header.castAt_eq]
  rcases hs with ⟨rfl, rfl⟩ | ⟨hsrc, hs⟩
  · obtain ⟨hwrite, hstored⟩ := hnone List.take_nil
    exact ⟨_, hwrite, hstored⟩
  · simp only [hsrc, ne_eq, not_false_eq_true, if_true, hs.header.castAt_eq]
    by_cases hnull : s.buffer = 0 ∨ d.buffer = 0
    · have hempty : data.take d.maximumLength = [] := by
        rcases hnull with hnull | hnull
        · rw [hs.nonnull hnull, List.take_nil]
        · rw [hd.nonnull hnull, List.take_zero]
      obtain ⟨hwrite, hstored⟩ := hnone hempty
      refine ⟨_, ?_, hstored⟩
      show (if s.buffer = 0 ∨ d.buffer = 0 then _ else _) = _
      rw [if_pos hnull]
      exact hwrite
    · have hcopy : data.take (min s.length d.maximumLength) = data.take d.maximumLength := by
        rw [hs.length, List.take_eq_take_iff]
        omega
      have hlen : min s.length d.maximumLength = (data.take d.maximumLength).length := by
        rw [List.length_take, hs.length, Nat.min_comm]
      have hle : (data.take d.maximumLength).length ≤ d.maximumLength := List.length_take_le _ _
      have hlt : (data.take d.maximumLength).length < 0x10000 := Nat.lt_of_le_of_lt hle hfits.maximumLength
      refine ⟨_, ?_, stored_wrote (t := g.logged) rfl rfl (hfits.withLength hlt) [] rfl
        (by rw [List.append_nil]; exact hle)⟩
      show (if s.buffer = 0 ∨ d.buffer = 0 then _ else _) = _
      rw [if_neg hnull, hs.readArray_take (Nat.min_le_left _ _), hcopy, hlen, setLength_of_lt d hlt]
      refine LoggedGuest.storeString_ok_iff.mpr ⟨hd.mapped.mono hle, ?_, by rw [List.append_nil]⟩
      rw [bytes_length (hfits.withLength hlt).padding]
      exact hd.header.mapped

end Copy

section Append

/-- An append writes the text behind the old one when both fit, and else nothing. -/
structure Appended (arch : Arch) (g : GuestMemory ε) (dst : Nat) (d : CountedString) (data : List UInt8)
    (status : Nat) (t : LoggedGuest ε) : Prop where
  fits : status = statusSuccess ↔ d.length + data.length ≤ d.maximumLength
  error : status ≠ statusSuccess → t = g.logged
  stored : status = statusSuccess →
    Stored arch g t dst { d with length := d.length + data.length } d.length data

/-- The NUL behind the text lies in the buffer. -/
theorem appended_wrote (hd : g.Destination arch dst d) (hfit : d.length + data.length ≤ d.maximumLength)
    {ws : List (Nat × List UInt8)} (hws : ws = [] ∨ ws = [(d.buffer + (d.length + data.length), [0, 0])] ∧
      d.length + data.length + 2 ≤ d.maximumLength) {t : LoggedGuest ε}
    (ht : t.guest.bytes = (g.bytes.writeBytes (d.buffer + d.length) data).writeAll ws)
    (hlog : t.writes = (d.buffer + d.length, data) :: ws) :
    Stored arch g (t.wrote dst (CountedString.bytes arch { d with length := d.length + data.length })) dst
      { d with length := d.length + data.length } d.length data where
  header := LoggedGuest.stringAt_wrote (hd.header.fits.withLength
    (Nat.lt_of_le_of_lt hfit hd.header.fits.maximumLength))
  length := rfl
  le := hfit
  log := by
    show t.guest.bytes.writeBytes _ _ = g.bytes.writeAll (t.writes ++ [_])
    rw [writeAll_concat, hlog, ht]
    rfl
  inside w hw := by
    have hmem : w ∈ t.writes ++ [(dst, CountedString.bytes arch { d with length := d.length + data.length })] := hw
    rw [hlog, List.mem_append, List.mem_cons, List.mem_singleton] at hmem
    show _ ∨ d.buffer + d.length ≤ w.1 ∧ w.1 + w.2.length ≤ d.buffer + d.maximumLength
    rcases hmem with (rfl | hmem) | rfl
    · exact Or.inr ⟨Nat.le_refl _, by dsimp only; omega⟩
    · rcases hws with rfl | ⟨rfl, hroom⟩
      · cases hmem
      · rw [List.mem_singleton.mp hmem]
        exact Or.inr ⟨by dsimp only; omega, by simp only [List.length_cons, List.length_nil]; omega⟩
    · have hlen := bytes_length (s := { d with length := d.length + data.length }) hd.header.fits.padding
      exact Or.inl ⟨Nat.le_refl _, Nat.le_of_eq (congrArg (dst + ·) hlen)⟩
  text i hi hx := by
    have hfits := hd.header.fits.withLength (Nat.lt_of_le_of_lt hfit hd.header.fits.maximumLength)
    have hkeep : (t.wrote dst (CountedString.bytes arch { d with length := d.length + data.length })).guest.bytes
        (d.buffer + d.length + i) = t.guest.bytes (d.buffer + d.length + i) := LoggedGuest.wrote_beyond hfits hx
    have hnul : t.guest.bytes (d.buffer + d.length + i) =
        g.bytes.writeBytes (d.buffer + d.length) data (d.buffer + d.length + i) := by
      rw [ht]
      rcases hws with rfl | ⟨rfl, -⟩
      · rfl
      · exact ByteMemory.writeBytes_outside (Or.inl (by omega))
    exact hkeep.trans (hnul.trans (ByteMemory.writeBytes_inside hi))

theorem appendToUnicodeString_spec (hd : g.Destination arch dst d) (data : List UInt8) :
    ∃ status t, g.appendToUnicodeString arch dst data = .ok (status, t) ∧ Appended arch g dst d data status t := by
  have hle := hd.le
  have hmax := hd.header.fits.maximumLength
  unfold appendToUnicodeString
  rw [hd.header.castAt_eq]
  by_cases hempty : data = []
  · subst hempty
    refine ⟨statusSuccess, g.logged, rfl, iff_of_true rfl hle, fun h => absurd rfl h, fun _ => ?_⟩
    exact
      { header := hd.header.cast
        length := rfl
        le := hle
        log := rfl
        inside := fun w hw => absurd hw List.not_mem_nil
        text := fun i hi => absurd hi (Nat.not_lt_zero i) }
  · by_cases hfit : d.length + data.length ≤ d.maximumLength
    · have hroom : g.RangeMapped (d.buffer + d.length) data.length :=
        (rangeMapped_add.mp (hd.mapped.mono hfit)).2
      have hlen : d.setLength (d.length + data.length) = { d with length := d.length + data.length } :=
        setLength_of_lt d (Nat.lt_of_le_of_lt hfit hmax)
      have hwritten : ∀ t : LoggedGuest ε, t.guest.mgr = g.mgr →
          t.memWrite dst (CountedString.bytes arch { d with length := d.length + data.length }) =
            .ok (t.wrote dst (CountedString.bytes arch { d with length := d.length + data.length })) := by
        intro t hmgr
        refine LoggedGuest.memWrite_ok ?_
        rw [bytes_length (s := { d with length := d.length + data.length }) hd.header.fits.padding]
        intro i hi
        rw [hmgr]
        exact hd.header.mapped i hi
      by_cases hnul : d.length + data.length + 2 ≤ d.maximumLength
      · have hroom' : g.RangeMapped (d.buffer + (d.length + data.length)) 2 :=
          (rangeMapped_add.mp (hd.mapped.mono hnul)).2
        have hnulWrite : (g.logged.wrote (d.buffer + d.length) data).memWrite (d.buffer + (d.length + data.length))
            [0, 0] = .ok _ := LoggedGuest.memWrite_ok hroom'
        refine ⟨statusSuccess, _, ?_, iff_of_true rfl hfit, fun h => absurd rfl h,
          fun _ => appended_wrote hd hfit (Or.inr ⟨rfl, hnul⟩)
            (t := (g.logged.wrote (d.buffer + d.length) data).wrote (d.buffer + (d.length + data.length)) [0, 0])
            rfl rfl⟩
        simp only [bind, Except.bind, pure, Except.pure, if_neg hempty, if_neg (Nat.not_lt.mpr hfit),
          LoggedGuest.memWrite_ok (t := g.logged) hroom, hlen, if_pos hnul]
        rw [hnulWrite]
        simp only [hwritten ((g.logged.wrote _ _).wrote _ _) rfl]
      · refine ⟨statusSuccess, _, ?_, iff_of_true rfl hfit, fun h => absurd rfl h,
          fun _ => appended_wrote hd hfit (Or.inl rfl) (t := g.logged.wrote (d.buffer + d.length) data) rfl rfl⟩
        simp only [bind, Except.bind, pure, Except.pure, if_neg hempty, if_neg (Nat.not_lt.mpr hfit),
          LoggedGuest.memWrite_ok (t := g.logged) hroom, hlen, if_neg hnul]
        simp only [hwritten (g.logged.wrote _ _) rfl]
    · refine ⟨statusBufferTooSmall, g.logged, ?_, iff_of_false (by decide) hfit, fun _ => rfl, fun h => ?_⟩
      · show (if data = [] then _ else _) = _
        rw [if_neg hempty, if_pos (by omega)]
        rfl
      · cases h

end Append

end GuestMemory

end Speakeasy
