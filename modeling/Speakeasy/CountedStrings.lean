import Speakeasy.SecurePaths
import Speakeasy.GuestStrings
import Speakeasy.MemoryRuns
import Speakeasy.GuestCallbacks
import Speakeasy.PointerProbes
import Speakeasy.PeExports

namespace Speakeasy

open PageEngine MemoryManager

/-- What ends the read of a string: a memory error, or no NUL so far. -/
inductive StringFault
  | mem (e : MemError)
  | running
deriving DecidableEq, Repr

/-- A UNICODE_STRING or a STRING. -/
structure CountedString where
  length : Nat
  maximumLength : Nat
  padding : List UInt8
  buffer : Nat
deriving DecidableEq, Repr

def statusSuccess : Nat := 0

def statusUnsuccessful : Nat := 0xC0000001

def statusBufferTooSmall : Nat := 0xC0000023

def statusInvalidParameter : Nat := 0xC000000D

namespace CountedString

variable (arch : Arch)

def size : Nat := 2 * arch.ptrSize

def new : CountedString := ⟨0, 0, List.replicate (arch.ptrSize - 4) 0, 0⟩

def cast (data : List UInt8) : CountedString where
  length := fromBytes (data.take 2)
  maximumLength := fromBytes ((data.drop 2).take 2)
  padding := (data.drop 4).take (arch.ptrSize - 4)
  buffer := fromBytes (data.drop arch.ptrSize)

def bytes (s : CountedString) : List UInt8 :=
  toBytes 2 s.length ++ toBytes 2 s.maximumLength ++ s.padding ++ toBytes arch.ptrSize s.buffer

/-- The counts have 16 bits. -/
def setLength (s : CountedString) (n : Nat) : CountedString := { s with length := n % 0x10000 }

def setMaximumLength (s : CountedString) (n : Nat) : CountedString := { s with maximumLength := n % 0x10000 }

end CountedString

/-- The guest with the writes of a call so far. -/
structure LoggedGuest (ε : Type) where
  guest : GuestMemory ε
  writes : List (Nat × List UInt8)

namespace LoggedGuest

variable {ε : Type} [PageEngine ε] (arch : Arch) (env : MemEnv)

def memWrite (t : LoggedGuest ε) (address : Nat) (data : List UInt8) : Except StringFault (LoggedGuest ε) :=
  match t.guest.memWrite address data with
  | .ok guest => .ok ⟨guest, t.writes ++ [(address, data)]⟩
  | .error e => .error (.mem e)

def memAlloc (t : LoggedGuest ε) (size : Nat) (tag : PyStr) : Except StringFault (Nat × LoggedGuest ε) :=
  match memMap env t.guest.mgr { size := size, tag := some tag } with
  | (.ok ptr, mgr) => .ok (ptr, ⟨{ t.guest with mgr := mgr }, t.writes⟩)
  | (.error e, _) => .error (.mem e)

/-- The text at the buffer, and then the structure. -/
def storeString (t : LoggedGuest ε) (address : Nat) (us : CountedString) (data : List UInt8) :
    Except StringFault (LoggedGuest ε) := do
  let t ← t.memWrite us.buffer data
  t.memWrite address (us.bytes arch)

end LoggedGuest

namespace GuestMemory

variable {ε : Type} [PageEngine ε] (arch : Arch) (env : MemEnv)

def castAt (g : GuestMemory ε) (address : Nat) : Except StringFault CountedString :=
  match g.memRead address (CountedString.size arch) with
  | .ok data => .ok (CountedString.cast arch data)
  | .error e => .error (.mem e)

def readArray (g : GuestMemory ε) (address count : Nat) : Except StringFault (List UInt8) :=
  (g.memRead address count).mapError .mem

/-- The guest before a call has written. -/
def logged (g : GuestMemory ε) : LoggedGuest ε := ⟨g, []⟩

/-- The loop of `read_mem_string`, which keeps the NUL. -/
def readUnits (g : GuestMemory ε) (width maxChars : Nat) : Nat → Nat → Nat → Except StringFault (List Nat)
  | 0, _, _ => .error .running
  | fuel + 1, address, i =>
    if maxChars ≠ 0 ∧ maxChars ≤ i then .ok []
    else
      match g.memRead address width with
      | .error e => .error (.mem e)
      | .ok char =>
        if fromBytes char = 0 then .ok [0]
        else (g.readUnits width maxChars fuel (address + width) (i + 1)).map (fromBytes char :: ·)

example (g : GuestMemory ε) {address : Nat} (h : g.memRead address 1 = .ok [0x41]) :
    g.readUnits 1 1 2 address 0 = .ok [0x41] := by
  rw [readUnits, h]
  rfl

def readString (g : GuestMemory ε) (fuel address maxChars : Nat) : Except StringFault (List Nat) :=
  (g.readUnits 1 maxChars fuel address 0).map fun data => (data.map decodeAnsiChar).filter (· ≠ 0)

def readWideString (g : GuestMemory ε) (fuel address maxChars : Nat) : Except StringFault (List Nat) :=
  (g.readUnits 2 maxChars fuel address 0).map fun us => (decodeUnits ByteMemory.replace us).filter (· ≠ 0)

def readAnsiString (g : GuestMemory ε) (fuel address : Nat) : Except StringFault (List Nat) := do
  let ans ← g.castAt arch address
  g.readString fuel ans.buffer ans.length

def readUnicodeString (g : GuestMemory ε) (fuel address : Nat) : Except StringFault (List Nat) := do
  let us ← g.castAt arch address
  g.readWideString fuel us.buffer (us.length / 2)

def memStringLen (g : GuestMemory ε) (width : Nat) : Nat → Nat → Except StringFault Nat
  | 0, _ => .error .running
  | fuel + 1, address =>
    match g.memRead address width with
    | .error e => .error (.mem e)
    | .ok char => if fromBytes char = 0 then .ok 0 else (g.memStringLen width fuel (address + width)).map (· + 1)

def rtlInitUnicodeString (g : GuestMemory ε) (fuel destinationString sourceString : Nat) :
    Except StringFault (LoggedGuest ε) :=
  let us := CountedString.new arch
  if sourceString ≠ 0 then do
    let uniStr ← g.readWideString fuel sourceString 0
    let size := uniStr.length * 2
    let us := { (us.setLength size).setMaximumLength size with buffer := sourceString }
    g.logged.memWrite destinationString (us.bytes arch)
  else g.logged.memWrite destinationString (us.bytes arch)

def ansiTag (ansiStr : List Nat) : PyStr := "api.struct.STRING.".toList ++ ansiStr.map Char.ofNat

def rtlAnsiStringToUnicodeString (g : GuestMemory ε) (fuel destinationString sourceString allocate : Nat) :
    Except StringFault (Nat × LoggedGuest ε) := do
  let ansiStr ← g.readAnsiString arch fuel sourceString
  let us ← g.castAt arch destinationString
  let size := ansiStr.length * 2
  let data := charBytes 2 (encodeUnits ansiStr)
  if allocate ≠ 0 then do
    let (ptr, t) ← g.logged.memAlloc env size (ansiTag ansiStr)
    let us := { us.setMaximumLength size with buffer := ptr }
    let t ← t.storeString arch destinationString (us.setLength size) data
    pure (statusSuccess, t)
  else if us.maximumLength < size then pure (statusUnsuccessful, g.logged)
  else do
    let t ← g.logged.storeString arch destinationString (us.setLength size) data
    pure (statusSuccess, t)

/-- `self.mem_read(src.Buffer, src.Length) if src.Length else b""`. -/
def countedData (g : GuestMemory ε) (src : CountedString) : Except StringFault (List UInt8) :=
  if src.length ≠ 0 then g.readArray src.buffer src.length else .ok []

def rtlDuplicateUnicodeString (g : GuestMemory ε) (flags stringIn stringOut : Nat) :
    Except StringFault (Nat × LoggedGuest ε) :=
  if stringIn = 0 ∨ stringOut = 0 ∨ flags = 2 ∨ 3 < flags then .ok (statusInvalidParameter, g.logged)
  else do
    let src ← g.castAt arch stringIn
    if src.maximumLength < src.length ∨ (src.length ≠ 0 ∧ src.buffer = 0) then
      pure (statusInvalidParameter, g.logged)
    else do
      let data ← g.countedData src
      let dest := CountedString.new arch
      if data ≠ [] ∨ flags = 3 then do
        let data := if flags % 2 = 1 then data ++ [0, 0] else data
        let (ptr, t) ← g.logged.memAlloc env data.length "api.struct.UNICODE_STRING".toList
        let dest := ({ dest with buffer := ptr }.setLength src.length).setMaximumLength data.length
        let t ← t.storeString arch stringOut dest data
        pure (statusSuccess, t)
      else do
        let t ← g.logged.memWrite stringOut (dest.bytes arch)
        pure (statusSuccess, t)

def rtlCopyUnicodeString (g : GuestMemory ε) (destinationString sourceString : Nat) :
    Except StringFault (LoggedGuest ε) := do
  let dest ← g.castAt arch destinationString
  let src ← if sourceString ≠ 0 then (g.castAt arch sourceString).map some else pure none
  match src with
  | none => g.logged.memWrite destinationString ((dest.setLength 0).bytes arch)
  | some src =>
    if src.buffer = 0 ∨ dest.buffer = 0 then
      g.logged.memWrite destinationString ((dest.setLength 0).bytes arch)
    else do
      let toCopy := min src.length dest.maximumLength
      let data ← g.readArray src.buffer toCopy
      g.logged.storeString arch destinationString (dest.setLength toCopy) data

/-- `_append_to_unicode_string`. -/
def appendToUnicodeString (g : GuestMemory ε) (destAddr : Nat) (data : List UInt8) :
    Except StringFault (Nat × LoggedGuest ε) := do
  let dest ← g.castAt arch destAddr
  if data = [] then pure (statusSuccess, g.logged)
  else if dest.maximumLength < dest.length + data.length then pure (statusBufferTooSmall, g.logged)
  else do
    let t ← g.logged.memWrite (dest.buffer + dest.length) data
    let dest := dest.setLength (dest.length + data.length)
    let t ← if dest.length + 2 ≤ dest.maximumLength then t.memWrite (dest.buffer + dest.length) [0, 0] else pure t
    let t ← t.memWrite destAddr (dest.bytes arch)
    pure (statusSuccess, t)

def rtlAppendUnicodeToString (g : GuestMemory ε) (fuel destination source : Nat) :
    Except StringFault (Nat × LoggedGuest ε) :=
  if source = 0 then .ok (statusSuccess, g.logged)
  else do
    let slen ← g.memStringLen 2 fuel source
    let data ← g.readArray source (slen * 2)
    g.appendToUnicodeString arch destination data

def rtlAppendUnicodeStringToString (g : GuestMemory ε) (destination source : Nat) :
    Except StringFault (Nat × LoggedGuest ε) := do
  let us ← g.castAt arch source
  let data ← if us.buffer ≠ 0 ∧ us.length ≠ 0 then g.readArray us.buffer us.length else pure []
  g.appendToUnicodeString arch destination data

/-- `lower` is `str.lower`. -/
def rtlEqualUnicodeString (lower : List Nat → List Nat) (g : GuestMemory ε)
    (fuel string1 string2 caseInSensitive : Nat) : Except StringFault Nat := do
  let _ ← g.castAt arch string1
  let s1 ← g.readUnicodeString arch fuel string1
  let s2 ← g.readUnicodeString arch fuel string2
  let rv := if caseInSensitive ≠ 0 then decide (lower s1 = lower s2) else decide (s1 = s2)
  pure rv.toNat

end GuestMemory

theorem toBytes_fromBytes (bs : List UInt8) : toBytes bs.length (fromBytes bs) = bs := by
  induction bs with
  | nil => rfl
  | cons b bs ih =>
    have hb := b.toNat_lt
    have hlow : UInt8.ofNat (b.toNat + 256 * fromBytes bs) = b := by
      apply UInt8.toNat_inj.mp
      rw [UInt8.toNat_ofNat']
      omega
    have hhigh : (b.toNat + 256 * fromBytes bs) / 256 = fromBytes bs := by omega
    rw [List.length_cons, fromBytes, toBytes, hlow, hhigh, ih]

namespace CountedString

variable {arch : Arch} {s : CountedString}

/-- The fields fit in the structure. -/
structure Fits (arch : Arch) (s : CountedString) : Prop where
  length : s.length < 0x10000
  maximumLength : s.maximumLength < 0x10000
  padding : s.padding.length = arch.ptrSize - 4
  buffer : s.buffer < 256 ^ arch.ptrSize

theorem four_le_ptrSize (arch : Arch) : 4 ≤ arch.ptrSize := by cases arch <;> decide

theorem cast_bytes (h : s.Fits arch) : CountedString.cast arch (s.bytes arch) = s := by
  have hptr := four_le_ptrSize arch
  have hhead : (toBytes 2 s.length ++ toBytes 2 s.maximumLength ++ s.padding).length = arch.ptrSize := by
    simp [h.padding]
    omega
  have hlength : ((s.bytes arch).take 2) = toBytes 2 s.length := by
    unfold bytes
    rw [List.append_assoc, List.append_assoc, List.take_left' (toBytes_length 2 _)]
  have hmax : ((s.bytes arch).drop 2).take 2 = toBytes 2 s.maximumLength := by
    unfold bytes
    rw [List.append_assoc, List.append_assoc, List.drop_left' (toBytes_length 2 _),
      List.take_left' (toBytes_length 2 _)]
  have hpadding : ((s.bytes arch).drop 4).take (arch.ptrSize - 4) = s.padding := by
    have hfour : (toBytes 2 s.length ++ toBytes 2 s.maximumLength).length = 4 := by simp
    unfold bytes
    rw [List.append_assoc, List.drop_left' hfour, List.take_left' h.padding]
  have hbuffer : (s.bytes arch).drop arch.ptrSize = toBytes arch.ptrSize s.buffer := by
    unfold bytes
    rw [List.drop_left' hhead]
  unfold CountedString.cast
  rw [hlength, hmax, hpadding, hbuffer, fromBytes_toBytes_of_lt h.length, fromBytes_toBytes_of_lt h.maximumLength,
    fromBytes_toBytes_of_lt h.buffer]

theorem bytes_length (h : s.padding.length = arch.ptrSize - 4) : (s.bytes arch).length = size arch := by
  have hptr := four_le_ptrSize arch
  unfold bytes size
  simp only [List.length_append, toBytes_length, h]
  omega

theorem fits_cast {data : List UInt8} (h : data.length = size arch) : (CountedString.cast arch data).Fits arch where
  length := by
    have hlt := fromBytes_lt (data.take 2)
    have hle : 256 ^ (data.take 2).length ≤ 256 ^ 2 := Nat.pow_le_pow_right (by decide) (List.length_take_le _ _)
    exact Nat.lt_of_lt_of_le hlt hle
  maximumLength := by
    have hlt := fromBytes_lt ((data.drop 2).take 2)
    have hle : 256 ^ ((data.drop 2).take 2).length ≤ 256 ^ 2 :=
      Nat.pow_le_pow_right (by decide) (List.length_take_le _ _)
    exact Nat.lt_of_lt_of_le hlt hle
  padding := by
    have hptr := four_le_ptrSize arch
    show ((data.drop 4).take (arch.ptrSize - 4)).length = _
    rw [List.length_take, List.length_drop, h, size]
    omega
  buffer := by
    have hlt := fromBytes_lt (data.drop arch.ptrSize)
    rwa [List.length_drop, h, size, show 2 * arch.ptrSize - arch.ptrSize = arch.ptrSize by omega] at hlt

theorem fits_new (arch : Arch) : (new arch).Fits arch where
  length := Nat.zero_lt_succ _
  maximumLength := Nat.zero_lt_succ _
  padding := List.length_replicate
  buffer := Nat.pow_pos (by decide)

theorem Fits.withLength (h : s.Fits arch) {n : Nat} (hn : n < 0x10000) : Fits arch { s with length := n } :=
  { h with length := hn }

theorem Fits.setLength (h : s.Fits arch) (n : Nat) : (s.setLength n).Fits arch :=
  { h with length := Nat.mod_lt _ (by decide) }

theorem Fits.setMaximumLength (h : s.Fits arch) (n : Nat) : (s.setMaximumLength n).Fits arch :=
  { h with maximumLength := Nat.mod_lt _ (by decide) }

theorem Fits.setBuffer (h : s.Fits arch) {a : Nat} (ha : a < 256 ^ arch.ptrSize) :
    Fits arch { s with buffer := a } :=
  { h with buffer := ha }

end CountedString

/-- What a loop without a bound reads of an array: its units up to the first zero, which is the last. -/
def untilNul : List Nat → List Nat
  | [] => []
  | u :: us => if u = 0 then [0] else u :: untilNul us

theorem untilNul_of_not_mem {us : List Nat} (h : 0 ∉ us) : untilNul us = us := by
  induction us with
  | nil => rfl
  | cons u us ih =>
    rw [List.mem_cons, not_or] at h
    obtain ⟨hu, hus⟩ := h
    rw [untilNul, if_neg (Ne.symm hu), ih hus]

theorem untilNul_of_mem {us : List Nat} (h : 0 ∈ us) : untilNul us = us.takeWhile (· ≠ 0) ++ [0] := by
  induction us with
  | nil => cases h
  | cons u us ih =>
    by_cases hu : u = 0
    · simp [untilNul, hu]
    · have hus : 0 ∈ us := (List.mem_cons.mp h).resolve_left (Ne.symm hu)
      simp [untilNul, hu, ih hus]

theorem takeWhile_of_not_mem {us : List Nat} (h : 0 ∉ us) : us.takeWhile (· ≠ 0) = us := by
  rw [List.takeWhile_eq_self_iff]
  intro u hu
  rw [decide_eq_true_eq]
  rintro rfl
  exact h hu

namespace GuestMemory

variable {ε : Type} [PageEngine ε] {arch : Arch} {g : GuestMemory ε} {width a : Nat} {cs us : List Nat}

/-- A NUL-terminated array in mapped memory. -/
structure MappedString (g : GuestMemory ε) (width a : Nat) (cs : List Nat) : Prop where
  holds : g.bytes.HoldsString width a cs
  mapped : g.RangeMapped a ((cs.length + 1) * width)

/-- An array of units in mapped memory. -/
structure MappedArray (g : GuestMemory ε) (width a : Nat) (us : List Nat) : Prop where
  holds : g.bytes.Holds a (charBytes width us)
  mapped : g.RangeMapped a (us.length * width)
  lt : ∀ u ∈ us, u < 256 ^ width

theorem memRead_ok {n : Nat} (h : g.RangeMapped a n) : g.memRead a n = .ok (g.bytes.readBytes a n) := if_pos h

theorem memRead_of_ok {n : Nat} {data : List UInt8} (h : g.memRead a n = .ok data) :
    g.RangeMapped a n ∧ data = g.bytes.readBytes a n := by
  unfold memRead at h
  split at h
  next hmapped => exact ⟨hmapped, (Except.ok.inj h).symm⟩
  next => cases h

theorem MappedString.array (h : g.MappedString width a cs) : g.MappedArray width a (cs ++ [0]) where
  holds := h.holds.holds
  mapped := by
    have hlen : (cs ++ [0]).length = cs.length + 1 := List.length_append
    rw [hlen]
    exact h.mapped
  lt u hu := by
    rcases List.mem_append.mp hu with hmem | hmem
    · exact (h.holds.chars u hmem).2
    · rw [List.mem_singleton.mp hmem]
      exact Nat.pow_pos (by decide)

/-- The first unit of an array, and the array behind it. -/
theorem MappedArray.cons_iff {u : Nat} : g.MappedArray width a (u :: us) ↔
    g.RangeMapped a width ∧ g.bytes.readBytes a width = toBytes width u ∧ u < 256 ^ width ∧
      g.MappedArray width (a + width) us := by
  have hlen : (u :: us).length * width = width + us.length * width := by
    rw [List.length_cons, Nat.succ_mul, Nat.add_comm]
  have hbytes : g.bytes.Holds a (charBytes width (u :: us)) ↔
      g.bytes.readBytes a width = toBytes width u ∧ g.bytes.Holds (a + width) (charBytes width us) := by
    unfold ByteMemory.Holds
    rw [charBytes_length, hlen, ByteMemory.readBytes_add, charBytes_cons, charBytes_length]
    exact List.append_eq_append_iff_of_size_eq_left (by rw [ByteMemory.readBytes_length, toBytes_length])
  constructor
  · intro h
    obtain ⟨hm, hrest⟩ := rangeMapped_add.mp (hlen ▸ h.mapped)
    obtain ⟨hfirst, htail⟩ := hbytes.mp h.holds
    exact ⟨hm, hfirst, h.lt u List.mem_cons_self,
      ⟨htail, hrest, fun v hv => h.lt v (List.mem_cons_of_mem _ hv)⟩⟩
  · rintro ⟨hm, hfirst, hlt, hrest⟩
    refine ⟨hbytes.mpr ⟨hfirst, hrest.holds⟩, ?_, ?_⟩
    · rw [hlen]
      exact rangeMapped_add.mpr ⟨hm, hrest.mapped⟩
    · intro v hv
      rcases List.mem_cons.mp hv with rfl | hv
      · exact hlt
      · exact hrest.lt v hv

/-- One step of the loop. -/
theorem readUnits_step {u maxChars fuel i : Nat} (hmapped : g.RangeMapped a width)
    (hread : g.bytes.readBytes a width = toBytes width u) (hlt : u < 256 ^ width)
    (hmax : ¬(maxChars ≠ 0 ∧ maxChars ≤ i)) :
    g.readUnits width maxChars (fuel + 1) a i =
      if u = 0 then .ok [0] else (g.readUnits width maxChars fuel (a + width) (i + 1)).map (u :: ·) := by
  rw [readUnits, if_neg hmax, memRead_ok hmapped, hread]
  simp only [fromBytes_toBytes_of_lt hlt]

/-- The loop reads an array up to its first zero, or up to its end when the bound is there. -/
theorem readUnits_array {maxChars fuel i : Nat} (h : g.MappedArray width a us) (hfuel : us.length < fuel)
    (hend : maxChars = 0 ∧ 0 ∈ us ∨ maxChars ≠ 0 ∧ maxChars = i + us.length) :
    g.readUnits width maxChars fuel a i = .ok (untilNul us) := by
  induction us generalizing a fuel i with
  | nil =>
    obtain ⟨fuel, rfl⟩ : ∃ n, fuel = n + 1 := ⟨fuel - 1, by omega⟩
    rcases hend with ⟨-, hmem⟩ | ⟨hne, heq⟩
    · cases hmem
    · rw [List.length_nil] at heq
      rw [readUnits, if_pos ⟨hne, by omega⟩]
      rfl
  | cons u us ih =>
    obtain ⟨fuel, rfl⟩ : ∃ n, fuel = n + 1 := ⟨fuel - 1, by omega⟩
    obtain ⟨hmapped, hread, hlt, hrest⟩ := MappedArray.cons_iff.mp h
    rw [List.length_cons] at hend hfuel
    rw [readUnits_step hmapped hread hlt (by omega), untilNul]
    by_cases hu : u = 0
    · rw [if_pos hu, if_pos hu]
    · rw [if_neg hu, if_neg hu, ih hrest (by omega)]
      · rfl
      · rcases hend with ⟨hzero, hmem⟩ | ⟨hne, heq⟩
        · exact Or.inl ⟨hzero, (List.mem_cons.mp hmem).resolve_left (Ne.symm hu)⟩
        · exact Or.inr ⟨hne, by omega⟩

/-- The result of the loop does not depend on the number of its rounds. -/
theorem readUnits_det {maxChars fuel fuel' i : Nat} {r r' : List Nat}
    (h : g.readUnits width maxChars fuel a i = .ok r) (h' : g.readUnits width maxChars fuel' a i = .ok r') :
    r = r' := by
  induction fuel generalizing a fuel' i r r' with
  | zero => cases h
  | succ fuel ih =>
    cases fuel' with
    | zero => cases h'
    | succ fuel' =>
      rw [readUnits] at h h'
      by_cases hmax : maxChars ≠ 0 ∧ maxChars ≤ i
      · rw [if_pos hmax] at h h'
        exact (Except.ok.inj h).symm.trans (Except.ok.inj h')
      · rw [if_neg hmax] at h h'
        cases hread : g.memRead a width with
        | error e =>
          rw [hread] at h
          cases h
        | ok char =>
          rw [hread] at h h'
          simp only at h h'
          by_cases hzero : fromBytes char = 0
          · rw [if_pos hzero] at h h'
            exact (Except.ok.inj h).symm.trans (Except.ok.inj h')
          · rw [if_neg hzero] at h h'
            cases hr : g.readUnits width maxChars fuel (a + width) (i + 1) with
            | error e =>
              rw [hr] at h
              cases h
            | ok rest =>
              cases hr' : g.readUnits width maxChars fuel' (a + width) (i + 1) with
              | error e =>
                rw [hr'] at h'
                cases h'
              | ok rest' =>
                rw [hr] at h
                rw [hr'] at h'
                rw [← Except.ok.inj h, ← Except.ok.inj h', ih hr hr']

/-- A loop without a bound that ends has read a NUL-terminated array. -/
theorem readUnits_string {fuel i : Nat} {r : List Nat} (h : g.readUnits width 0 fuel a i = .ok r) :
    ∃ cs, g.MappedString width a cs ∧ r = cs ++ [0] := by
  induction fuel generalizing a i r with
  | zero => cases h
  | succ fuel ih =>
    rw [readUnits, if_neg (by simp)] at h
    cases hread : g.memRead a width with
    | error e =>
      rw [hread] at h
      cases h
    | ok char =>
      obtain ⟨hmapped, rfl⟩ := memRead_of_ok hread
      rw [hread] at h
      simp only at h
      have hchar : g.bytes.readBytes a width = toBytes width (fromBytes (g.bytes.readBytes a width)) := by
        have hof := toBytes_fromBytes (g.bytes.readBytes a width)
        rw [ByteMemory.readBytes_length] at hof
        exact hof.symm
      have hlt : fromBytes (g.bytes.readBytes a width) < 256 ^ width := by
        have hbound := fromBytes_lt (g.bytes.readBytes a width)
        rwa [ByteMemory.readBytes_length] at hbound
      by_cases hzero : fromBytes (g.bytes.readBytes a width) = 0
      · rw [if_pos hzero] at h
        refine ⟨[], ⟨⟨?_, by simp⟩, ?_⟩, (Except.ok.inj h).symm⟩
        · rw [hzero] at hchar
          unfold ByteMemory.Holds
          rw [List.nil_append, charBytes_length, charBytes_cons, List.length_singleton, Nat.one_mul, hchar]
          exact (List.append_nil _).symm
        · rwa [List.length_nil, Nat.zero_add, Nat.one_mul]
      · rw [if_neg hzero] at h
        cases hrest : g.readUnits width 0 fuel (a + width) (i + 1) with
        | error e =>
          rw [hrest] at h
          cases h
        | ok rest =>
          rw [hrest] at h
          obtain ⟨cs, hcs, rfl⟩ := ih hrest
          have harray := MappedArray.cons_iff.mpr ⟨hmapped, hchar, hlt, hcs.array⟩
          refine ⟨fromBytes (g.bytes.readBytes a width) :: cs, ⟨⟨harray.holds, ?_⟩, ?_⟩,
            (Except.ok.inj h).symm⟩
          · intro c hc
            rcases List.mem_cons.mp hc with rfl | hc
            · exact ⟨Nat.pos_of_ne_zero hzero, hlt⟩
            · exact hcs.holds.chars c hc
          · have hlen := harray.mapped
            rwa [List.length_cons, List.length_append] at hlen

/-- `mem_string_len` counts the units before the NUL. -/
theorem memStringLen_eq {fuel : Nat} (h : g.MappedString width a cs) (hfuel : cs.length < fuel) :
    g.memStringLen width fuel a = .ok cs.length := by
  induction cs generalizing a fuel with
  | nil =>
    obtain ⟨fuel, rfl⟩ : ∃ n, fuel = n + 1 := ⟨fuel - 1, by omega⟩
    obtain ⟨hmapped, hread, hlt, -⟩ := MappedArray.cons_iff.mp h.array
    rw [memStringLen, memRead_ok hmapped, hread]
    simp only [fromBytes_toBytes_of_lt hlt]
    rfl
  | cons c cs ih =>
    obtain ⟨fuel, rfl⟩ : ∃ n, fuel = n + 1 := ⟨fuel - 1, by omega⟩
    obtain ⟨hmapped, hread, hlt, hrest⟩ := MappedArray.cons_iff.mp h.array
    have hpos := (h.holds.chars c List.mem_cons_self).1
    have hstring : g.MappedString width (a + width) cs := by
      refine ⟨⟨hrest.holds, fun d hd => h.holds.chars d (List.mem_cons_of_mem _ hd)⟩, ?_⟩
      have hlen : g.RangeMapped (a + width) ((cs ++ [0]).length * width) := hrest.mapped
      rwa [List.length_append] at hlen
    rw [List.length_cons] at hfuel
    rw [memStringLen, memRead_ok hmapped, hread]
    simp only [fromBytes_toBytes_of_lt hlt]
    rw [if_neg (by omega), ih hstring (by omega)]
    rfl

end GuestMemory

end Speakeasy
