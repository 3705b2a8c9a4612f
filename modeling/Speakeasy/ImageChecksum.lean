import Speakeasy.CountedStrings

namespace Speakeasy

/-- `struct.unpack("<nH", data)` of an even number of bytes. -/
def unpackWords : List UInt8 → List Nat
  | b₀ :: b₁ :: bs => (b₀.toNat + 256 * b₁.toNat) :: unpackWords bs
  | _ => []

/-- The loop that folds the carries back in, for a number of turns. -/
def foldCarryLoop : Nat → Nat → Nat
  | 0, calcSum => calcSum
  | turns + 1, calcSum =>
    if calcSum / 0x10000 ≠ 0 then foldCarryLoop turns (calcSum % 0x10000 + calcSum / 0x10000) else calcSum

/-- Each turn makes the sum smaller, so that it has turns enough. -/
def foldCarry (calcSum : Nat) : Nat := foldCarryLoop calcSum calcSum

/-- One turn of the loop that removes the stored checksum. -/
def removeWord (calcSum word : Int) : Int :=
  if word ≤ calcSum % 0x10000 then calcSum - word else (calcSum - word) % 0x10000 - 1

def dosSignature : List UInt8 := [0x4D, 0x5A]

def peSignature : List UInt8 := [0x50, 0x45, 0, 0]

/-- The bytes whose words are summed. -/
def paddedFile (data : List UInt8) : List UInt8 := data ++ List.replicate (data.length % 2) 0

/-- The sum that is reported for a file and its stored checksum. -/
def checkSumOf (data : List UInt8) (stored : Nat) : Nat :=
  let calcSum := foldCarry (unpackWords (paddedFile data)).sum
  let calcSum := removeWord (removeWord calcSum (stored % 0x10000 : Nat)) (stored / 0x10000 : Nat)
  ((calcSum + data.length) % 0x100000000).toNat

namespace ByteMemory

def checkSumMappedFile (m : ByteMemory) (baseAddress fileLength headerSum checkSum : Nat) : Nat × ByteMemory :=
  let data := m.readBytes baseAddress fileLength
  if m.readBytes baseAddress 2 ≠ dosSignature then (0, m)
  else
    let nt := baseAddress + m.readInt (baseAddress + 0x3C) 4
    if m.readBytes nt 4 ≠ peSignature then (0, m)
    else
      let stored := m.readInt (nt + 24 + 64) 4
      let m := m.writeBytes headerSum (toBytes 4 stored)
      (nt, m.writeBytes checkSum (toBytes 4 (checkSumOf data stored)))

/-- A mapped PE file whose checksum field, at `e_lfanew` and 88, lies at an even offset inside it. -/
structure MappedPe (m : ByteMemory) (baseAddress fileLength lfanew : Nat) : Prop where
  dos : m.readBytes baseAddress 2 = dosSignature
  header : m.readInt (baseAddress + 0x3C) 4 = lfanew
  pe : m.readBytes (baseAddress + lfanew) 4 = peSignature
  even : (lfanew + 88) % 2 = 0
  inside : lfanew + 92 ≤ fileLength

end ByteMemory

/-- A file with another value in its checksum field. -/
def withField (data : List UInt8) (offset value : Nat) : List UInt8 :=
  data.take offset ++ toBytes 4 value ++ data.drop (offset + 4)

/-- The folded sum of the file with its checksum field set to zero. -/
def zeroedSum (data : List UInt8) (offset : Nat) : Nat :=
  foldCarry (unpackWords (paddedFile (withField data offset 0))).sum

theorem foldCarryLoop_spec {turns calcSum : Nat} (h : calcSum ≤ turns) (hpos : 0 < calcSum) :
    foldCarryLoop turns calcSum = (calcSum - 1) % 0xFFFF + 1 := by
  induction turns generalizing calcSum with
  | zero => omega
  | succ turns ih =>
    rw [foldCarryLoop]
    split
    next hcarry =>
      rw [ih (by omega) (by omega)]
      omega
    next => omega

theorem foldCarry_spec {calcSum : Nat} (hpos : 0 < calcSum) : foldCarry calcSum = (calcSum - 1) % 0xFFFF + 1 :=
  foldCarryLoop_spec (Nat.le_refl calcSum) hpos

theorem unpackWords_append {xs : List UInt8} (ys : List UInt8) (h : xs.length % 2 = 0) :
    unpackWords (xs ++ ys) = unpackWords xs ++ unpackWords ys := by
  induction xs using unpackWords.induct with
  | case1 b₀ b₁ bs ih =>
    rw [List.length_cons, List.length_cons] at h
    rw [List.cons_append, List.cons_append, unpackWords, unpackWords, ih (by omega), List.cons_append]
  | case2 xs hshort =>
    match xs, hshort with
    | [], _ => rfl
    | [b], _ => simp at h
    | b₀ :: b₁ :: bs, hshort => exact absurd rfl (hshort b₀ b₁ bs)

theorem unpackWords_toBytes {value : Nat} (h : value < 0x100000000) :
    unpackWords (toBytes 4 value) = [value % 0x10000, value / 0x10000] := by
  show [(UInt8.ofNat value).toNat + 256 * (UInt8.ofNat (value / 256)).toNat,
    (UInt8.ofNat (value / 256 / 256)).toNat + 256 * (UInt8.ofNat (value / 256 / 256 / 256)).toNat] = _
  simp only [UInt8.toNat_ofNat', List.cons.injEq, and_true]
  omega

/-- Two words taken out of a sum leave the folded rest, but for the two forms of zero. -/
theorem removeWord_twice {rest low high : Nat} (hrest : 0 < rest) (hlow : low < 0x10000) (hhigh : high < 0x10000) :
    removeWord (removeWord (foldCarry (rest + low + high) : Nat) (low : Nat)) (high : Nat) =
      ((if foldCarry rest = 0xFFFF ∧ (low ≠ 0 ∨ high ≠ 0) then 0 else foldCarry rest : Nat) : Int) := by
  rw [foldCarry_spec hrest, foldCarry_spec (by omega)]
  unfold removeWord
  split
  next =>
    split
    next => split <;> omega
    next => split <;> omega
  next =>
    split
    next => split <;> omega
    next => split <;> omega

section Fields

variable {data : List UInt8} {offset value : Nat}

theorem length_withField (h : offset + 4 ≤ data.length) (value : Nat) :
    (withField data offset value).length = data.length := by
  simp only [withField, List.length_append, List.length_take, toBytes_length, List.length_drop]
  omega

/-- A field at an even offset adds its two words. -/
theorem sum_withField (heven : offset % 2 = 0) (hin : offset + 4 ≤ data.length) (hvalue : value < 0x100000000) :
    (unpackWords (paddedFile (withField data offset value))).sum =
      (unpackWords (paddedFile (withField data offset 0))).sum + value % 0x10000 + value / 0x10000 := by
  have hhead : (data.take offset).length % 2 = 0 := by
    rw [List.length_take_of_le (by omega)]
    exact heven
  have hsplit : ∀ v, v < 0x100000000 → (unpackWords (paddedFile (withField data offset v))).sum =
      (unpackWords (data.take offset)).sum + (v % 0x10000 + v / 0x10000) +
        (unpackWords (data.drop (offset + 4) ++ List.replicate (data.length % 2) 0)).sum := by
    intro v hv
    have hfield : (toBytes 4 v).length % 2 = 0 := by rw [toBytes_length]
    rw [paddedFile, length_withField hin, withField, List.append_assoc, List.append_assoc,
      unpackWords_append _ hhead, unpackWords_append _ hfield, unpackWords_toBytes hv, List.sum_append,
      List.sum_append]
    simp only [List.sum_cons, List.sum_nil]
    omega
  rw [hsplit value hvalue, hsplit 0 (by omega)]
  omega

/-- The sum that is reported, from the folded sum of the file without its checksum. -/
def reportedSum (length zeroed stored : Nat) : Nat :=
  (length + if zeroed = 0xFFFF ∧ stored ≠ 0 then 0 else zeroed) % 0x100000000

/-- A reported sum is reported again when it and the value before it are zero or not zero alike. -/
theorem reportedSum_again {length zeroed stored first : Nat} (h : first = reportedSum length zeroed stored) :
    first = reportedSum length zeroed first ↔ zeroed ≠ 0xFFFF ∨ (stored = 0 ↔ first = 0) := by
  unfold reportedSum at h ⊢
  split at h
  next hstored =>
    split
    next hfirst => omega
    next hfirst => omega
  next hstored =>
    split
    next hfirst => omega
    next hfirst => omega

theorem checkSumOf_withField (heven : offset % 2 = 0) (hin : offset + 4 ≤ data.length) (hvalue : value < 0x100000000)
    (hpos : 0 < (unpackWords (paddedFile (withField data offset 0))).sum) :
    checkSumOf (withField data offset value) value = reportedSum data.length (zeroedSum data offset) value := by
  have hrest := sum_withField heven hin hvalue
  have hlow : value % 0x10000 < 0x10000 := Nat.mod_lt _ (by decide)
  have hhigh : value / 0x10000 < 0x10000 := by omega
  have hwords : (value % 0x10000 ≠ 0 ∨ value / 0x10000 ≠ 0) ↔ value ≠ 0 := by omega
  unfold checkSumOf
  simp only
  rw [hrest, removeWord_twice hpos hlow hhigh, length_withField hin]
  simp only [hwords]
  unfold reportedSum zeroedSum
  omega

end Fields

namespace ByteMemory

variable {m : ByteMemory} {base length lfanew : Nat}

theorem readBytes_part (m : ByteMemory) (base : Nat) {length k count : Nat} (h : k + count ≤ length) :
    m.readBytes (base + k) count = ((m.readBytes base length).drop k).take count := by
  apply Holds.part
  · rw [Holds, readBytes_length]
  · rwa [readBytes_length]

/-- The file is itself with what its checksum field holds. -/
theorem withField_stored (m : ByteMemory) (base : Nat) {length offset : Nat} (h : offset + 4 ≤ length) :
    withField (m.readBytes base length) offset (m.readInt (base + offset) 4) = m.readBytes base length := by
  have hfield : toBytes 4 (m.readInt (base + offset) 4) = ((m.readBytes base length).drop offset).take 4 := by
    have hread := toBytes_fromBytes (m.readBytes (base + offset) 4)
    rw [readBytes_length] at hread
    rw [← readBytes_part m base h, readInt, hread]
  rw [withField, hfield, List.append_assoc, ← List.drop_drop, List.take_append_drop, List.take_append_drop]

theorem readInt_writeBytes {m : ByteMemory} {a v : Nat} (hv : v < 0x100000000) :
    (m.writeBytes a (toBytes 4 v)).readInt a 4 = v := by
  have hread := readBytes_writeBytes_self m a (toBytes 4 v)
  rw [toBytes_length] at hread
  rw [readInt, hread, fromBytes_toBytes_of_lt (by omega)]

theorem readInt_writeBytes_of_apart {m : ByteMemory} {a b : Nat} {bs : List UInt8}
    (h : b + 4 ≤ a ∨ a + bs.length ≤ b) : (m.writeBytes a bs).readInt b 4 = m.readInt b 4 := by
  rw [readInt, readBytes_writeBytes_of_apart h, readInt]

theorem readInt_lt (m : ByteMemory) (a : Nat) : m.readInt a 4 < 0x100000000 := by
  have hlt := fromBytes_lt (m.readBytes a 4)
  rwa [readBytes_length] at hlt

namespace MappedPe

/-- The zeroed file begins as the file does. -/
theorem zeroed_pos (h : m.MappedPe base length lfanew) :
    0 < (unpackWords (paddedFile (withField (m.readBytes base length) (lfanew + 88) 0))).sum := by
  have hin := h.inside
  have hdos : (m.readBytes base length).take 2 = dosSignature := by
    have hpart := @readBytes_part m base length 0 2 (by omega)
    rw [Nat.add_zero, List.drop_zero] at hpart
    rw [← hpart]
    exact h.dos
  have hfile : (m.readBytes base length).take (lfanew + 88) =
      dosSignature ++ ((m.readBytes base length).take (lfanew + 88)).drop 2 := by
    conv_lhs => rw [← List.take_append_drop 2 ((m.readBytes base length).take (lfanew + 88))]
    rw [List.take_take, Nat.min_eq_left (by omega), hdos]
  rw [paddedFile, withField, hfile, List.append_assoc, List.append_assoc, List.append_assoc,
    unpackWords_append _ (by decide), List.sum_append]
  exact Nat.lt_of_lt_of_le (by decide) (Nat.le_add_right _ _)

/-- What is reported for a mapped file. -/
theorem checkSumOf_eq (h : m.MappedPe base length lfanew) :
    checkSumOf (m.readBytes base length) (m.readInt (base + (lfanew + 88)) 4) =
      reportedSum length (zeroedSum (m.readBytes base length) (lfanew + 88)) (m.readInt (base + (lfanew + 88)) 4) := by
  have hin := h.inside
  have hlen : lfanew + 88 + 4 ≤ (m.readBytes base length).length := by rw [readBytes_length]; omega
  have hreported := checkSumOf_withField h.even hlen (m.readInt_lt (base + (lfanew + 88))) h.zeroed_pos
  rwa [withField_stored m base (by omega), readBytes_length] at hreported

theorem checkSumMappedFile_eq (h : m.MappedPe base length lfanew) (headerSum checkSum : Nat) :
    m.checkSumMappedFile base length headerSum checkSum =
      (base + lfanew, (m.writeBytes headerSum (toBytes 4 (m.readInt (base + (lfanew + 88)) 4))).writeBytes checkSum
        (toBytes 4 (reportedSum length (zeroedSum (m.readBytes base length) (lfanew + 88))
          (m.readInt (base + (lfanew + 88)) 4)))) := by
  have hfield : base + lfanew + 24 + 64 = base + (lfanew + 88) := by omega
  rw [checkSumMappedFile]
  simp only [h.dos, h.header, h.pe, ne_eq, not_true_eq_false, if_false, hfield, h.checkSumOf_eq]

/-- A file stays one, with the same bytes outside its checksum field, when only the field and bytes outside change. -/
theorem congr {m' : ByteMemory} (h : m.MappedPe base length lfanew)
    (hsame : ∀ a, base ≤ a → a < base + length → ¬(base + (lfanew + 88) ≤ a ∧ a < base + (lfanew + 92)) → m' a = m a) :
    m'.MappedPe base length lfanew ∧
      zeroedSum (m'.readBytes base length) (lfanew + 88) = zeroedSum (m.readBytes base length) (lfanew + 88) := by
  have hin := h.inside
  have hread : ∀ a count, base ≤ a → a + count ≤ base + (lfanew + 88) → m'.readBytes a count = m.readBytes a count := by
    intro a count hlo hhi
    apply readBytes_congr
    intro x hx hxlt
    exact hsame x (by omega) (by omega) (by omega)
  refine ⟨⟨?_, ?_, ?_, h.even, h.inside⟩, ?_⟩
  · rw [hread base 2 (Nat.le_refl _) (by omega)]
    exact h.dos
  · rw [readInt, hread (base + 0x3C) 4 (by omega) (by omega)]
    exact h.header
  · rw [hread (base + lfanew) 4 (by omega) (by omega)]
    exact h.pe
  · have htake : (m'.readBytes base length).take (lfanew + 88) = (m.readBytes base length).take (lfanew + 88) := by
      have hpart := @readBytes_part m base length 0 (lfanew + 88) (by omega)
      have hpart' := @readBytes_part m' base length 0 (lfanew + 88) (by omega)
      rw [Nat.add_zero, List.drop_zero] at hpart hpart'
      rw [← hpart, ← hpart', hread base (lfanew + 88) (Nat.le_refl _) (Nat.le_refl _)]
    have hdrop : (m'.readBytes base length).drop (lfanew + 88 + 4) = (m.readBytes base length).drop (lfanew + 88 + 4) := by
      have hall : ∀ n : ByteMemory, (n.readBytes base length).drop (lfanew + 88 + 4) =
          n.readBytes (base + (lfanew + 92)) (length - (lfanew + 92)) := by
        intro n
        rw [readBytes_part n base (show lfanew + 92 + (length - (lfanew + 92)) ≤ length by omega)]
        rw [List.take_of_length_le]
        rw [List.length_drop, readBytes_length]
      rw [hall m', hall m]
      apply readBytes_congr
      intro x hx hxlt
      exact hsame x (by omega) (by omega) (by omega)
    rw [zeroedSum, zeroedSum, withField, withField, htake, hdrop]

end MappedPe

/-- `CheckSumMappedFile` reports the length and the folded sum of the file without its checksum, or the length alone
where that sum is 0xFFFF and the field is not zero. With the reported sum stored, a second call reports it twice,
unless the folded sum is 0xFFFF and just one of the two values of the field was zero. -/
theorem checkSumMappedFile_law (h : m.MappedPe base length lfanew) (headerSum checkSum : Nat) :
    (m.checkSumMappedFile base length headerSum checkSum).1 = base + lfanew ∧
      (m.checkSumMappedFile base length headerSum checkSum).2.readInt checkSum 4 =
        reportedSum length (zeroedSum (m.readBytes base length) (lfanew + 88)) (m.readInt (base + (lfanew + 88)) 4) ∧
      ∀ m₁ m₂ m₃ : ByteMemory, (headerSum + 4 ≤ checkSum ∨ checkSum + 4 ≤ headerSum) →
        (headerSum + 4 ≤ base ∨ base + length ≤ headerSum) → (checkSum + 4 ≤ base ∨ base + length ≤ checkSum) →
        m₁ = (m.checkSumMappedFile base length headerSum checkSum).2 →
        m₂ = m₁.writeBytes (base + (lfanew + 88)) (toBytes 4 (m₁.readInt checkSum 4)) →
        m₃ = (m₂.checkSumMappedFile base length headerSum checkSum).2 →
        (m₃.readInt headerSum 4 = m₃.readInt checkSum 4 ↔
          zeroedSum (m.readBytes base length) (lfanew + 88) ≠ 0xFFFF ∨
            (m.readInt (base + (lfanew + 88)) 4 = 0 ↔ m₁.readInt checkSum 4 = 0)) := by
  have hreportedLt : ∀ zeroed stored, reportedSum length zeroed stored < 0x100000000 :=
    fun _ _ => Nat.mod_lt _ (by decide)
  have hsum : ∀ {n : ByteMemory}, n.MappedPe base length lfanew →
      (n.checkSumMappedFile base length headerSum checkSum).2.readInt checkSum 4 =
        reportedSum length (zeroedSum (n.readBytes base length) (lfanew + 88)) (n.readInt (base + (lfanew + 88)) 4) := by
    intro n hn
    rw [hn.checkSumMappedFile_eq]
    exact readInt_writeBytes (hreportedLt _ _)
  refine ⟨by rw [h.checkSumMappedFile_eq], hsum h, ?_⟩
  intro m₁ m₂ m₃ hapart hheader hcheck hm₁ hm₂ hm₃
  have hin := h.inside
  have hpe : m₂.MappedPe base length lfanew ∧
      zeroedSum (m₂.readBytes base length) (lfanew + 88) = zeroedSum (m.readBytes base length) (lfanew + 88) := by
    apply h.congr
    intro a hlo hhi hfield
    have hlen : ∀ v, (toBytes 4 v).length = 4 := fun v => toBytes_length 4 v
    rw [hm₂, writeBytes_outside (by rw [hlen]; omega), hm₁, h.checkSumMappedFile_eq]
    simp only
    rw [writeBytes_outside (by rw [hlen]; omega), writeBytes_outside (by rw [hlen]; omega)]
  have hstored : m₂.readInt (base + (lfanew + 88)) 4 = m₁.readInt checkSum 4 := by
    rw [hm₂]
    exact readInt_writeBytes (readInt_lt m₁ checkSum)
  have hthird : m₃.readInt checkSum 4 =
      reportedSum length (zeroedSum (m.readBytes base length) (lfanew + 88)) (m₁.readInt checkSum 4) := by
    rw [hm₃, hsum hpe.1, hpe.2, hstored]
  have hheaderSum : m₃.readInt headerSum 4 = m₁.readInt checkSum 4 := by
    rw [hm₃, hpe.1.checkSumMappedFile_eq, readInt_writeBytes_of_apart (by rw [toBytes_length]; omega),
      readInt_writeBytes (readInt_lt m₂ _), hstored]
  have hfirst : m₁.readInt checkSum 4 =
      reportedSum length (zeroedSum (m.readBytes base length) (lfanew + 88)) (m.readInt (base + (lfanew + 88)) 4) := by
    rw [hm₁, hsum h]
  rw [hheaderSum, hthird]
  exact reportedSum_again hfirst

/-- A file of 96 bytes with the checksum 1 whose other words add up to 0xFFFF. -/
def fullSumFile : ByteMemory := fun a =>
  match a with
  | 0 => 0x4D
  | 1 => 0x5A
  | 4 => 0x50
  | 5 => 0x45
  | 8 => 0x5E
  | 9 => 0x60
  | 60 => 4
  | 92 => 1
  | _ => 0

theorem fullSumFile_mappedPe : fullSumFile.MappedPe 0 96 4 := ⟨by decide, by decide, by decide, by decide, by decide⟩

theorem checkSumMappedFile_law_fullSumFile : (fullSumFile.checkSumMappedFile 0 96 0x100 0x104).1 = 4 :=
  (checkSumMappedFile_law fullSumFile_mappedPe 0x100 0x104).1

/-- The stored checksum 1 makes the sum of this file its length alone. -/
theorem checkSumMappedFile_fullSum :
    fullSumFile.MappedPe 0 96 4 ∧ (fullSumFile.checkSumMappedFile 0 96 0x100 0x104).2.readInt 0x104 4 = 96 ∧
      (96 + zeroedSum (fullSumFile.readBytes 0 96) 92) % 0x100000000 = 96 + 0xFFFF :=
  ⟨fullSumFile_mappedPe, by decide +kernel, by decide +kernel⟩

end ByteMemory

end Speakeasy
