import Speakeasy.DataProtection
import Speakeasy.SecurePaths
import Mathlib.Data.List.DropRight

namespace Speakeasy

open ByteMemory

def base64Alphabet : List Nat :=
  "ABCDEFGHIJKLMNOPQRSTUVWXYZabcdefghijklmnopqrstuvwxyz0123456789+/".toList.map Char.toNat

def base64Pad : Nat := 0x3D

def isBase64Space (c : Nat) : Bool := c = 0x20 || c = 0x09 || c = 0x0D || c = 0x0A

/-- The bytes of the groups of four values of six bits, of which the last may be shorter. -/
def sextetBytes : List Nat → List UInt8
  | a :: b :: c :: d :: vs =>
    let n := ((a * 64 + b) * 64 + c) * 64 + d
    UInt8.ofNat (n / 0x10000) :: UInt8.ofNat (n / 0x100) :: UInt8.ofNat n :: sextetBytes vs
  | [a, b, c] =>
    let n := (a * 64 + b) * 64 + c
    [UInt8.ofNat (n / 0x400), UInt8.ofNat (n / 4)]
  | [a, b] => [UInt8.ofNat ((a * 64 + b) / 16)]
  | _ => []

/-- `base64.b64decode` of characters of the alphabet and the padding that they lack. -/
def b64decode (data : List Nat) : List UInt8 := sextetBytes (data.map fun c => base64Alphabet.idxOf c)

def decodeBase64 (s : List Nat) : Option (List UInt8) :=
  let chars := s.filter fun c => !isBase64Space c
  let data := chars.rdropWhile fun c => c = base64Pad
  if chars.length - data.length > 2 ∨ data.length % 4 = 1 ∨ ¬(∀ c ∈ data, c ∈ base64Alphabet) then none
  else some (b64decode data)

/-- The values of six bits of bytes. -/
def sextets : List UInt8 → List Nat
  | a :: b :: c :: bs =>
    let n := a.toNat * 0x10000 + b.toNat * 0x100 + c.toNat
    n / 0x40000 :: n / 0x1000 % 64 :: n / 64 % 64 :: n % 64 :: sextets bs
  | [a, b] =>
    let n := a.toNat * 0x100 + b.toNat
    [n / 0x400, n / 16 % 64, n % 16 * 4]
  | [a] => [a.toNat / 4, a.toNat % 4 * 16]
  | [] => []

example : sextets [0x4D, 0x61, 0x6E, 0x21] = [19, 22, 5, 46, 8, 16] := by
  rw [sextets]
  rfl

/-- The base64 text of bytes, without the padding. -/
def base64Body (bs : List UInt8) : List Nat := (sextets bs).map fun v => base64Alphabet.getD v 0

section Decoding

variable {s data : List Nat} {bs : List UInt8}

theorem sextets_lt (bs : List UInt8) : ∀ v ∈ sextets bs, v < 64 := by
  induction bs using sextets.induct with
  | case1 a b c bs ih =>
    have ha := a.toNat_lt
    have hb := b.toNat_lt
    have hc := c.toNat_lt
    intro v hv
    rw [sextets] at hv
    simp only [List.mem_cons] at hv
    rcases hv with rfl | rfl | rfl | rfl | hv
    · omega
    · omega
    · omega
    · omega
    · exact ih v hv
  | case2 a b =>
    have ha := a.toNat_lt
    have hb := b.toNat_lt
    intro v hv
    rw [sextets] at hv
    simp only [List.mem_cons, List.not_mem_nil, or_false] at hv
    rcases hv with rfl | rfl | rfl
    · omega
    · omega
    · omega
  | case3 a =>
    have ha := a.toNat_lt
    intro v hv
    rw [sextets] at hv
    simp only [List.mem_cons, List.not_mem_nil, or_false] at hv
    rcases hv with rfl | rfl
    · omega
    · omega
  | case4 =>
    intro v hv
    cases hv

theorem length_sextets (bs : List UInt8) : (sextets bs).length % 4 ≠ 1 := by
  induction bs using sextets.induct with
  | case1 a b c bs ih =>
    rw [sextets]
    simp only [List.length_cons]
    omega
  | case2 a b =>
    show 3 % 4 ≠ 1
    decide
  | case3 a =>
    show 2 % 4 ≠ 1
    decide
  | case4 => decide

theorem ofNat_eq {n : Nat} {b : UInt8} (h : n % 256 = b.toNat) : UInt8.ofNat n = b := by
  apply UInt8.toNat_inj.mp
  rw [UInt8.toNat_ofNat', h]

theorem sextetBytes_sextets (bs : List UInt8) : sextetBytes (sextets bs) = bs := by
  induction bs using sextets.induct with
  | case1 a b c bs ih =>
    have ha := a.toNat_lt
    have hb := b.toNat_lt
    have hc := c.toNat_lt
    rw [sextets, sextetBytes]
    rw [ih, ofNat_eq (b := a) (by omega), ofNat_eq (b := b) (by omega), ofNat_eq (b := c) (by omega)]
  | case2 a b =>
    have ha := a.toNat_lt
    have hb := b.toNat_lt
    rw [sextets, sextetBytes]
    rw [ofNat_eq (b := a) (by omega), ofNat_eq (b := b) (by omega)]
  | case3 a =>
    have ha := a.toNat_lt
    rw [sextets, sextetBytes, ofNat_eq (b := a) (by omega)]
  | case4 => rfl

theorem base64Alphabet_value : ∀ v < 64, base64Alphabet.idxOf (base64Alphabet.getD v 0) = v ∧
    base64Alphabet.getD v 0 ∈ base64Alphabet := by decide

theorem b64decode_body (bs : List UInt8) : b64decode (base64Body bs) = bs := by
  have hvalues : (base64Body bs).map (fun c => base64Alphabet.idxOf c) = sextets bs := by
    rw [base64Body, List.map_map]
    conv_rhs => rw [← List.map_id (sextets bs)]
    apply List.map_congr_left
    intro v hv
    exact (base64Alphabet_value v (sextets_lt bs v hv)).1
  rw [b64decode, hvalues, sextetBytes_sextets]

theorem pad_not_alphabet : base64Pad ∉ base64Alphabet := by decide

/-- `rstrip("=")` of characters and padding. -/
theorem rdropWhile_padding (h : ∀ c ∈ data, c ≠ base64Pad) (k : Nat) :
    (data ++ List.replicate k base64Pad).rdropWhile (fun c => c = base64Pad) = data := by
  induction k with
  | zero =>
    rw [List.replicate_zero, List.append_nil, List.rdropWhile_eq_self_iff]
    intro hne
    rw [decide_eq_true_eq]
    exact h _ (List.getLast_mem hne)
  | succ k ih =>
    rw [List.replicate_succ', ← List.append_assoc, List.rdropWhile_concat_pos _ _ _ (by simp), ih]

/-- Characters of the alphabet, of a length that is possible, and at most two characters of padding. -/
def Base64Text (s data : List Nat) : Prop :=
  (∃ k ≤ 2, s.filter (fun c => !isBase64Space c) = data ++ List.replicate k base64Pad) ∧
    data.length % 4 ≠ 1 ∧ ∀ c ∈ data, c ∈ base64Alphabet

theorem decodeBase64_iff : decodeBase64 s = some bs ↔ ∃ data, Base64Text s data ∧ b64decode data = bs := by
  constructor
  · intro h
    unfold decodeBase64 at h
    simp only at h
    split at h
    next => cases h
    next hok =>
      rw [not_or, not_or, not_not] at hok
      obtain ⟨hpads, hlength, halphabet⟩ := hok
      refine ⟨_, ⟨⟨((s.filter fun c => !isBase64Space c).rtakeWhile fun c => c = base64Pad).length, ?_, ?_⟩, hlength,
        halphabet⟩, Option.some.inj h⟩
      · have hsplit := congrArg List.length
          (List.rdropWhile_append_rtakeWhile (p := fun c => decide (c = base64Pad)) (l := s.filter fun c => !isBase64Space c))
        rw [List.length_append] at hsplit
        omega
      · have hpad : (s.filter fun c => !isBase64Space c).rtakeWhile (fun c => c = base64Pad) =
            List.replicate ((s.filter fun c => !isBase64Space c).rtakeWhile fun c => c = base64Pad).length base64Pad := by
          rw [List.eq_replicate_iff]
          refine ⟨rfl, fun c hc => ?_⟩
          exact of_decide_eq_true (@List.mem_rtakeWhile_imp Nat (fun c => decide (c = base64Pad)) _ c hc)
        rw [← hpad, List.rdropWhile_append_rtakeWhile]
  · rintro ⟨data, ⟨⟨k, hk, hfilter⟩, hlength, halphabet⟩, rfl⟩
    have hstrip := rdropWhile_padding (fun c hc heq => pad_not_alphabet (heq ▸ halphabet c hc)) k
    unfold decodeBase64
    simp only
    rw [hfilter, hstrip, if_neg]
    rw [not_or, not_or, not_not]
    refine ⟨?_, hlength, halphabet⟩
    rw [List.length_append, List.length_replicate]
    omega

/-- The text of bytes, with white space anywhere and any part of the padding. -/
theorem decodeBase64_body {k : Nat} (hk : k ≤ 2)
    (h : s.filter (fun c => !isBase64Space c) = base64Body bs ++ List.replicate k base64Pad) : decodeBase64 s = some bs := by
  refine decodeBase64_iff.mpr ⟨base64Body bs, ⟨⟨k, hk, h⟩, ?_, ?_⟩, b64decode_body bs⟩
  · rw [base64Body, List.length_map]
    exact length_sextets bs
  · intro c hc
    obtain ⟨v, hv, rfl⟩ := List.mem_map.mp hc
    exact (base64Alphabet_value v (sextets_lt bs v hv)).2

theorem decodeBase64_none (h : ∀ data, ¬Base64Text s data) : decodeBase64 s = none := by
  cases hdecode : decodeBase64 s with
  | none => rfl
  | some bs =>
    obtain ⟨data, hdata, -⟩ := decodeBase64_iff.mp hdecode
    exact absurd hdata (h data)

/-- A character beyond ASCII is of no text. -/
theorem not_base64Text_of_high {c : Nat} (hc : c ∈ s) (hhigh : 0x80 ≤ c) (data : List Nat) : ¬Base64Text s data := by
  rintro ⟨⟨k, -, hfilter⟩, -, halphabet⟩
  have hspace : isBase64Space c = false := by
    simp only [isBase64Space, Bool.or_eq_false_iff, decide_eq_false_iff_not]
    omega
  have hmem : c ∈ data ++ List.replicate k base64Pad := by
    rw [← hfilter, List.mem_filter, hspace]
    exact ⟨hc, rfl⟩
  have hlow : ∀ d ∈ base64Alphabet, d < 0x80 := by decide
  rcases List.mem_append.mp hmem with hmem | hmem
  · have hlt := hlow c (halphabet c hmem)
    omega
  · have hpad : base64Pad < 0x80 := by decide
    rw [← (List.mem_replicate.mp hmem).2] at hpad
    omega

end Decoding

def cryptStringBase64 : Nat := 1

def cryptErrorMoreData : Nat := 234

namespace ByteMemory

/-- `mem_string_len`. -/
def charCount (m : ByteMemory) (width : Nat) : Nat → Nat → Option Nat
  | 0, _ => none
  | fuel + 1, address =>
    if m.readInt address width = 0 then some 0 else (charCount m width fuel (address + width)).map (· + 1)

def readChars (m : ByteMemory) (width address count : Nat) : List Nat :=
  (List.range count).map fun i => m.readInt (address + i * width) width

def cryptStringToBinary (m : ByteMemory) (fuel cw pszString cchString dwFlags pbBinary pcbBinary pdwSkip : Nat) :
    Option CryptReply :=
  (if cchString = 0 then m.charCount cw fuel pszString else some cchString).map fun cchString =>
    let s := (decodeText cw (m.readChars cw pszString cchString)).takeWhile fun c => c ≠ 0
    if dwFlags ≠ cryptStringBase64 then ⟨1, none, []⟩
    else
      match decodeBase64 s with
      | none => ⟨0, some cryptErrorInvalidData, []⟩
      | some decoded =>
        if pbBinary = 0 then ⟨1, none, [(pcbBinary, toBytes 4 decoded.length)]⟩
        else if decoded.length > m.readInt pcbBinary 4 then ⟨0, some cryptErrorMoreData, []⟩
        else
          ⟨1, none, [(pbBinary, decoded), (pcbBinary, toBytes 4 decoded.length)] ++
            if pdwSkip = 0 then [] else [(pdwSkip, [0, 0, 0, 0])]⟩

variable {m : ByteMemory} {cw fuel pszString cchString : Nat} {us : List Nat}

/-- The characters of a text: as many as are asked for, up to a NUL, or all of a string. -/
def TextAt (m : ByteMemory) (cw pszString cchString : Nat) (us : List Nat) : Prop :=
  if cchString = 0 then m.HoldsString cw pszString us
  else (m.readChars cw pszString cchString).takeWhile (fun c => c ≠ 0) = us

theorem HoldsString.charCount_from (h : m.HoldsString cw pszString us) {i : Nat} (hi : i ≤ us.length)
    (hfuel : us.length - i < fuel) : m.charCount cw fuel (pszString + i * cw) = some (us.length - i) := by
  induction fuel generalizing i with
  | zero => cases hfuel
  | succ fuel ih =>
    rw [charCount, h.readInt_get hi]
    by_cases hend : i = us.length
    · have hzero : (us ++ [0]).getD i 0 = 0 := by
        rw [hend, List.getD_append_right _ _ _ _ (Nat.le_refl _), Nat.sub_self]
        rfl
      rw [if_pos hzero, hend, Nat.sub_self]
    · have hpos := h.getD_pos (show i < us.length by omega)
      have hnext : pszString + i * cw + cw = pszString + (i + 1) * cw := by rw [Nat.succ_mul, Nat.add_assoc]
      rw [if_neg (by omega), hnext, ih (by omega) (by omega), Option.map_some]
      congr 1
      omega

theorem HoldsString.charCount_eq (h : m.HoldsString cw pszString us) (hfuel : us.length < fuel) :
    m.charCount cw fuel pszString = some us.length := by
  have hcount := h.charCount_from (Nat.zero_le _) (by rwa [Nat.sub_zero])
  rwa [Nat.zero_mul, Nat.add_zero, Nat.sub_zero] at hcount

theorem HoldsString.readChars_eq (h : m.HoldsString cw pszString us) : m.readChars cw pszString us.length = us := by
  apply List.ext_getElem
  · rw [readChars, List.length_map, List.length_range]
  · intro i hi hi'
    simp only [readChars, List.getElem_map, List.getElem_range]
    rw [h.readInt_get (Nat.le_of_lt hi'), List.getD_append _ _ _ _ hi', List.getD_eq_getElem _ _ hi']

theorem decodeAnsiChar_high {u : Nat} (h : u < 0x100) (hhigh : 0x80 ≤ u) : 0x80 ≤ decodeAnsiChar u := by
  unfold decodeAnsiChar
  split
  next =>
    have hentry : ∀ i < 32, 0x80 ≤ ansiBlock.getD i 0 := by decide
    exact hentry (u - 0x80) (by omega)
  next => exact hhigh

theorem decodeAnsiChar_low {u : Nat} (h : u < 0x80) : decodeAnsiChar u = u := by
  rw [decodeAnsiChar, if_neg (by omega)]

/-- A text of ASCII is its units. -/
theorem decodeText_ascii (hcw : cw = 1 ∨ cw = 2) (h : ∀ u ∈ us, u < 0x80) : decodeText cw us = us := by
  rcases hcw with rfl | rfl
  · conv_rhs => rw [← List.map_id us]
    exact List.map_congr_left fun u hu => decodeAnsiChar_low (h u hu)
  · have hplain : ∀ u ∈ us, ¬isSurrogate u := by
      intro u hu
      have hlt := h u hu
      simp only [isSurrogate, Bool.and_eq_true, decide_eq_true_eq]
      omega
    show decodeUnits id us = us
    induction us with
    | nil => rfl
    | cons u us ih =>
      have hu := hplain u List.mem_cons_self
      have hsplit := @decodeUnits_split id [] u us hu
      rw [List.nil_append] at hsplit
      rw [hsplit, ih (fun v hv => h v (List.mem_cons_of_mem _ hv)) fun v hv => hplain v (List.mem_cons_of_mem _ hv)]
      rfl

/-- A unit beyond ASCII makes a character beyond it. -/
theorem decodeText_high (hcw : cw = 1 ∨ cw = 2) (hus : ∀ u ∈ us, u < 256 ^ cw) {u : Nat} (hu : u ∈ us) (hhigh : 0x80 ≤ u) :
    ∃ c ∈ decodeText cw us, 0x80 ≤ c := by
  rcases hcw with rfl | rfl
  · exact ⟨_, List.mem_map_of_mem hu, decodeAnsiChar_high (hus u hu) hhigh⟩
  · have hmem := hu
    rw [← unitGroups_units us] at hmem
    obtain ⟨g, hg, hunit⟩ := List.mem_flatMap.mp hmem
    refine ⟨g.char id, List.mem_map_of_mem hg, ?_⟩
    cases g with
    | single v =>
      have hv : u = v := List.mem_singleton.mp hunit
      rw [UnitGroup.char_single, ← hv, id_eq, ite_self]
      exact hhigh
    | pair v w =>
      have hle := UnitGroup.le_char_pair id v w
      omega

/-- Narrow or wide, the text decodes as its units do. -/
theorem decodeBase64_decodeText (hcw : cw = 1 ∨ cw = 2) (hus : ∀ u ∈ us, u < 256 ^ cw) :
    decodeBase64 (decodeText cw us) = decodeBase64 us := by
  by_cases hascii : ∀ u ∈ us, u < 0x80
  · rw [decodeText_ascii hcw hascii]
  · simp only [not_forall] at hascii
    obtain ⟨u, hu, hhigh⟩ := hascii
    obtain ⟨c, hc, hchigh⟩ := decodeText_high hcw hus hu (Nat.not_lt.mp hhigh)
    rw [decodeBase64_none (not_base64Text_of_high hc hchigh),
      decodeBase64_none (not_base64Text_of_high hu (Nat.not_lt.mp hhigh))]

theorem decodeText_ne_zero (hcw : cw = 1 ∨ cw = 2) (hus : ∀ u ∈ us, u ≠ 0 ∧ u < 256 ^ cw) {c : Nat}
    (hc : c ∈ decodeText cw us) : c ≠ 0 := by
  rcases hcw with rfl | rfl
  · obtain ⟨u, hu, rfl⟩ := List.mem_map.mp hc
    by_cases hlow : u < 0x80
    · rw [decodeAnsiChar_low hlow]
      exact (hus u hu).1
    · have hhigh := decodeAnsiChar_high (hus u hu).2 (Nat.not_lt.mp hlow)
      omega
  · obtain ⟨g, hg, rfl⟩ := List.mem_map.mp hc
    rcases mem_unitGroups hg with ⟨u, hu, rfl⟩ | ⟨u, hu, v, hv, -, -, rfl⟩
    · rw [UnitGroup.char_single, id_eq, ite_self]
      exact (hus u hu).1
    · have hle := UnitGroup.le_char_pair id u v
      omega

/-- The text up to its NUL. -/
theorem decodeText_takeWhile (hcw : cw = 1 ∨ cw = 2) {units : List Nat} (hunits : ∀ u ∈ units, u < 256 ^ cw) :
    (decodeText cw units).takeWhile (fun c => c ≠ 0) = decodeText cw (units.takeWhile fun c => c ≠ 0) := by
  have hfront : ∀ u ∈ units.takeWhile (fun c => c ≠ 0), u ≠ 0 ∧ u < 256 ^ cw := by
    intro u hu
    have hne := List.mem_takeWhile_imp hu
    rw [decide_eq_true_eq] at hne
    exact ⟨hne, hunits u (List.takeWhile_prefix _ |>.subset hu)⟩
  have hall : ∀ c ∈ decodeText cw (units.takeWhile fun c => c ≠ 0), decide (c ≠ 0) = true :=
    fun c hc => decide_eq_true (decodeText_ne_zero hcw hfront hc)
  have hsplit := List.takeWhile_append_dropWhile (p := fun c : Nat => decide (c ≠ 0)) (l := units)
  cases hrest : units.dropWhile fun c => decide (c ≠ 0) with
  | nil =>
    rw [hrest, List.append_nil] at hsplit
    rw [hsplit] at hall ⊢
    exact List.takeWhile_eq_self_iff.mpr hall
  | cons z rest =>
    have hz : z = 0 := by
      have hhead := List.head?_dropWhile_not (fun c : Nat => decide (c ≠ 0)) units
      rw [hrest] at hhead
      simpa using hhead
    rw [hrest, hz] at hsplit
    have hdecode : decodeText cw units =
        decodeText cw (units.takeWhile fun c => c ≠ 0) ++ 0 :: decodeText cw rest := by
      conv_lhs => rw [← hsplit]
      rcases hcw with rfl | rfl
      · show List.map _ _ = _
        rw [List.map_append]
        rfl
      · exact decodeUnits_split _ _ (by decide)
    rw [hdecode, List.takeWhile_append_of_pos hall, List.takeWhile_cons_of_neg (by decide), List.append_nil]

theorem TextAt.decoded (hcw : cw = 1 ∨ cw = 2) (h : TextAt m cw pszString cchString us) (hfuel : us.length < fuel) :
    ∃ count, (if cchString = 0 then m.charCount cw fuel pszString else some cchString) = some count ∧
      decodeBase64 ((decodeText cw (m.readChars cw pszString count)).takeWhile fun c => c ≠ 0) = decodeBase64 us := by
  have hlt : ∀ count, ∀ u ∈ m.readChars cw pszString count, u < 256 ^ cw := by
    intro count u hu
    obtain ⟨i, -, rfl⟩ := List.mem_map.mp hu
    have hbound := fromBytes_lt (m.readBytes (pszString + i * cw) cw)
    rwa [readBytes_length] at hbound
  have hdecoded : ∀ count, (m.readChars cw pszString count).takeWhile (fun c => c ≠ 0) = us →
      decodeBase64 ((decodeText cw (m.readChars cw pszString count)).takeWhile fun c => c ≠ 0) = decodeBase64 us := by
    intro count hus
    rw [decodeText_takeWhile hcw (hlt count), hus]
    apply decodeBase64_decodeText hcw
    rw [← hus]
    exact fun u hu => hlt count u (List.takeWhile_prefix _ |>.subset hu)
  unfold TextAt at h
  split at h
  next hzero =>
    refine ⟨us.length, by rw [if_pos hzero, h.charCount_eq hfuel], hdecoded _ ?_⟩
    rw [h.readChars_eq, List.takeWhile_eq_self_iff]
    intro u hu
    rw [decide_eq_true_eq]
    exact Nat.ne_of_gt (h.chars u hu).1
  next hcount => exact ⟨cchString, if_neg hcount, hdecoded _ h⟩

/-- What a call answers for the bytes of a text. -/
def binaryReply (m : ByteMemory) (decoded : Option (List UInt8)) (pbBinary pcbBinary pdwSkip : Nat) : CryptReply :=
  match decoded with
  | none => ⟨0, some cryptErrorInvalidData, []⟩
  | some bs =>
    if pbBinary = 0 then ⟨1, none, [(pcbBinary, toBytes 4 bs.length)]⟩
    else if bs.length > m.readInt pcbBinary 4 then ⟨0, some cryptErrorMoreData, []⟩
    else
      ⟨1, none, [(pbBinary, bs), (pcbBinary, toBytes 4 bs.length)] ++ if pdwSkip = 0 then [] else [(pdwSkip, [0, 0, 0, 0])]⟩

theorem cryptStringToBinary_eq (hcw : cw = 1 ∨ cw = 2) (h : TextAt m cw pszString cchString us) (hfuel : us.length < fuel)
    (pbBinary pcbBinary pdwSkip : Nat) :
    m.cryptStringToBinary fuel cw pszString cchString cryptStringBase64 pbBinary pcbBinary pdwSkip =
      some (m.binaryReply (decodeBase64 us) pbBinary pcbBinary pdwSkip) := by
  obtain ⟨count, hcount, hdecoded⟩ := h.decoded hcw hfuel
  rw [cryptStringToBinary, hcount, Option.map_some]
  simp only [ne_eq, not_true_eq_false, if_false]
  rw [hdecoded]
  rfl

section Law

variable {P : DpapiCiphers} {heapAlloc heapAlloc' : Nat → Nat → Nat} {m' : ByteMemory}
  {ptrSize pDataIn szDataDescr pOptionalEntropy dwFlags pDataOut pDataIn' ppszDataDescr pOptionalEntropy' pDataOut' : Nat}

/-- A blob is rejected, or its fields are all of it and its signature is right. -/
def ChecksBlob (P : DpapiCiphers) (m : ByteMemory) (ptrSize pDataIn pOptionalEntropy : Nat) (reply : CryptReply) : Prop :=
  reply = ⟨0, some cryptErrorInvalidData, []⟩ ∨
    ∃ f : DpapiCiphers.Fields, f.Valid ∧ f.bytes = m.readDataBlob ptrSize pDataIn ∧
      P.hmacSha256 (P.getDpapiKeys (m.readEntropy ptrSize pOptionalEntropy)).2 f.signed = f.sign

theorem cryptUnprotectData_checks (P : DpapiCiphers) (heapAlloc : Nat → Nat → Nat) (m : ByteMemory) (ptrSize : Nat)
    {pDataIn pDataOut : Nat} (hin : pDataIn ≠ 0) (hout : pDataOut ≠ 0) (ppszDataDescr pOptionalEntropy : Nat) :
    ChecksBlob P m ptrSize pDataIn pOptionalEntropy
      (m.cryptUnprotectData P heapAlloc ptrSize pDataIn ppszDataDescr pOptionalEntropy pDataOut) := by
  have hnull : ¬(pDataIn = 0 ∨ pDataOut = 0) := by omega
  unfold ChecksBlob
  rw [cryptUnprotectData, if_neg hnull]
  simp only
  cases hfound : P.unprotectBlob (m.readDataBlob ptrSize pDataIn) (m.readEntropy ptrSize pOptionalEntropy) with
  | none => exact Or.inl rfl
  | some found =>
    obtain ⟨f, hvalid, hbytes, hsign, -⟩ := DpapiCiphers.unprotectBlob_iff.mp hfound
    exact Or.inr ⟨f, hvalid, hbytes, hsign⟩

/-- A text of bytes gives them back, and their number to a query; a text of nothing is an error. -/
def ReadsBase64 (m : ByteMemory) (fuel cw pszString cchString : Nat) (us : List Nat) : Prop :=
  (∀ bs k, k ≤ 2 → us.filter (fun c => !isBase64Space c) = base64Body bs ++ List.replicate k base64Pad →
    ∀ pcbBinary pdwSkip,
      m.cryptStringToBinary fuel cw pszString cchString cryptStringBase64 0 pcbBinary pdwSkip =
        some ⟨1, none, [(pcbBinary, toBytes 4 bs.length)]⟩ ∧
      ∀ pbBinary, pbBinary ≠ 0 → bs.length ≤ m.readInt pcbBinary 4 →
        m.cryptStringToBinary fuel cw pszString cchString cryptStringBase64 pbBinary pcbBinary pdwSkip =
          some ⟨1, none, [(pbBinary, bs), (pcbBinary, toBytes 4 bs.length)] ++
            if pdwSkip = 0 then [] else [(pdwSkip, [0, 0, 0, 0])]⟩) ∧
  ((∀ data, ¬Base64Text us data) → ∀ pbBinary pcbBinary pdwSkip,
    m.cryptStringToBinary fuel cw pszString cchString cryptStringBase64 pbBinary pcbBinary pdwSkip =
      some ⟨0, some cryptErrorInvalidData, []⟩)

theorem cryptStringToBinary_reads (hcw : cw = 1 ∨ cw = 2) (h : TextAt m cw pszString cchString us)
    (hfuel : us.length < fuel) : ReadsBase64 m fuel cw pszString cchString us := by
  constructor
  · intro bs k hk hfilter pcbBinary pdwSkip
    have hdecode := decodeBase64_body hk hfilter
    constructor
    · rw [cryptStringToBinary_eq hcw h hfuel, hdecode]
      rfl
    · intro pbBinary hpb hroom
      rw [cryptStringToBinary_eq hcw h hfuel, hdecode, binaryReply, if_neg hpb, if_neg (Nat.not_lt.mpr hroom)]
  · intro hnone pbBinary pcbBinary pdwSkip
    rw [cryptStringToBinary_eq hcw h hfuel, decodeBase64_none hnone]
    rfl

theorem cryptEncodings_law (hP : P.Lawful) (hheap : ∀ n size, heapAlloc n size < 256 ^ ptrSize)
    (hin : pDataIn ≠ 0) (hout : pDataOut ≠ 0) (hin' : pDataIn' ≠ 0) (hout' : pDataOut' ≠ 0) (hdescr' : ppszDataDescr ≠ 0)
    (hdescr : DescriptionAt m szDataDescr us) (hfuel : us.length < fuel)
    (hentropy : m'.readEntropy ptrSize pOptionalEntropy' = m.readEntropy ptrSize pOptionalEntropy)
    (hkept : ∀ blob, m.cryptProtectData P heapAlloc fuel ptrSize pDataIn szDataDescr pOptionalEntropy dwFlags pDataOut =
      some ⟨1, some cryptErrorSuccess, writeDataBlob ptrSize pDataOut (heapAlloc 0 (max blob.length 1)) blob⟩ →
      m'.HoldsDataBlob ptrSize pDataIn' (heapAlloc 0 (max blob.length 1)) blob) :
    ((∃ blob, m.cryptProtectData P heapAlloc fuel ptrSize pDataIn szDataDescr pOptionalEntropy dwFlags pDataOut =
        some ⟨1, some cryptErrorSuccess, writeDataBlob ptrSize pDataOut (heapAlloc 0 (max blob.length 1)) blob⟩ ∧
      Unprotects heapAlloc' ptrSize ppszDataDescr pDataOut' (m.readDataBlob ptrSize pDataIn) us
        (m'.cryptUnprotectData P heapAlloc' ptrSize pDataIn' ppszDataDescr pOptionalEntropy' pDataOut')) ↔
      ¬HasUnpaired us ∧ protectedSize (m.readDataBlob ptrSize pDataIn) us < 2 ^ 32) ∧
    (∀ (n : ByteMemory) a b c d, a ≠ 0 → d ≠ 0 →
      ChecksBlob P n ptrSize a c (n.cryptUnprotectData P heapAlloc' ptrSize a b c d)) ∧
    ∀ (n : ByteMemory) (turns width a count : Nat) (text : List Nat), width = 1 ∨ width = 2 → TextAt n width a count text →
      text.length < turns → ReadsBase64 n turns width a count text :=
  ⟨unprotects_iff hP hheap hin hout hin' hout' hdescr' hdescr hfuel hentropy hkept,
    fun n _ _ _ _ ha hd => cryptUnprotectData_checks P heapAlloc' n ptrSize ha hd _ _,
    fun _ _ _ _ _ _ hwidth htext hturns => cryptStringToBinary_reads hwidth htext hturns⟩

end Law

end ByteMemory

/-- The digest of the master key's text. -/
def tableKey : List UInt8 :=
  [0x04, 0xD1, 0x76, 0xD7, 0x7C, 0xAA, 0x23, 0x3F, 0x93, 0x60, 0x2C, 0xC2, 0x51, 0x4E, 0x79, 0xA1, 0x14, 0x03, 0xAD, 0x75,
    0x4F, 0xE1, 0xA3, 0xFF, 0xE1, 0xB4, 0x06, 0x84, 0x06, 0xCE, 0x15, 0x1B]

/-- The text `salt`. -/
def saltEntropy : List UInt8 := [0x73, 0x61, 0x6C, 0x74]

/-- The text `pass`. -/
def passData : List UInt8 := [0x70, 0x61, 0x73, 0x73]

/-- The keys without entropy, and with `saltEntropy`. -/
def tableKeys : List UInt8 × List UInt8 :=
  ([0x7C, 0x89, 0xEF, 0x41, 0x97, 0xB7, 0xEF, 0x51, 0x37, 0x1F, 0x77, 0x6E, 0xCA, 0x55, 0x38, 0xE2, 0xD3, 0xA0, 0x1D, 0x80,
    0x7F, 0x7B, 0xAB, 0x1E, 0xAF, 0x32, 0xE7, 0xF2, 0xFE, 0x27, 0x24, 0xC5],
   [0xC6, 0xA2, 0x74, 0x97, 0x3B, 0x48, 0xC4, 0xAD, 0x48, 0xEC, 0xFF, 0x16, 0xC2, 0xCC, 0x08, 0xB6, 0xD9, 0x61, 0xA0, 0xB8,
    0x0F, 0x74, 0x6A, 0x96, 0x99, 0x86, 0xC3, 0xF5, 0x7B, 0x5B, 0xAC, 0x5D])

/-- The cipher text of no data, with the first of the keys. -/
def emptyCipher : List UInt8 :=
  [0xE0, 0x4A, 0x1C, 0x74, 0x48, 0x40, 0xFD, 0x91, 0xE8, 0xE3, 0xF2, 0x5E, 0xCC, 0xF4, 0xB4, 0x86]

/-- The cipher text of `passData`, with the second. -/
def passCipher : List UInt8 :=
  [0x4B, 0xB6, 0xFE, 0xCC, 0x46, 0x73, 0x0B, 0xD5, 0xB2, 0xF9, 0x44, 0x03, 0x4A, 0xD4, 0xA7, 0x1E]

def tableSigned (descr cipher : List UInt8) : List UInt8 :=
  DpapiCiphers.dpapiHeader 0 descr.length ++ (descr ++ (toBytes 4 cipher.length ++ cipher))

/-- The padding of a text to blocks of 16 bytes. -/
def padBlocks (data : List UInt8) : List UInt8 :=
  data ++ List.replicate (16 - data.length % 16) (UInt8.ofNat (16 - data.length % 16))

def unpadBlocks (data : List UInt8) : List UInt8 := data.take (data.length - (data.getLast?.getD 0).toNat)

/-- The primitives on the inputs that the blobs below need. -/
def tableCiphers : DpapiCiphers where
  sha256 data :=
    if data = tableKey then tableKeys.1 else if data = tableKey ++ saltEntropy then tableKeys.2 else tableKey
  hmacSha256 _ data :=
    if data = tableSigned [0, 0] emptyCipher then
      [0xD9, 0xC7, 0x8F, 0x82, 0xD2, 0xDD, 0x1A, 0x4E, 0x9F, 0x6D, 0xD4, 0x42, 0x8D, 0xA6, 0x0D, 0x9B, 0x52, 0xC0, 0x95, 0x69,
        0x7E, 0x52, 0xD3, 0x97, 0x4F, 0x8D, 0xC2, 0x2D, 0xFB, 0x4F, 0x08, 0xD3]
    else if data = tableSigned [0x70, 0, 0x77, 0, 0, 0] passCipher then
      [0x44, 0xD2, 0x44, 0xF3, 0x61, 0x3C, 0xB5, 0x90, 0x56, 0xEE, 0x58, 0x8C, 0xF6, 0x3E, 0xE7, 0xD8, 0x2B, 0xBF, 0x05, 0x66,
        0x8B, 0x72, 0x6B, 0x8A, 0x38, 0xE8, 0x32, 0xBD, 0xB7, 0x19, 0xC1, 0x0F]
    else
      [0x82, 0x0B, 0x18, 0xEF, 0x02, 0x1D, 0x23, 0x29, 0x72, 0x7C, 0x63, 0x63, 0xE3, 0xC2, 0xF2, 0x6A, 0xA4, 0x15, 0xCE, 0xEB,
        0xD4, 0xFC, 0xE6, 0x02, 0x2A, 0x15, 0xE8, 0x49, 0x65, 0x4A, 0x60, 0x09]
  encrypt _ data := if data = [] then emptyCipher else if data = passData then passCipher else padBlocks data
  decrypt _ data :=
    if data = emptyCipher then some [] else if data = passCipher then some passData else some (unpadBlocks data)

theorem padBlocks_last (data : List UInt8) :
    (padBlocks data).getLast? = some (UInt8.ofNat (16 - data.length % 16)) := by
  have hpos : 16 - data.length % 16 ≠ 0 := by omega
  rw [padBlocks, List.getLast?_append, List.getLast?_replicate, if_neg hpos]
  rfl

theorem unpadBlocks_padBlocks (data : List UInt8) : unpadBlocks (padBlocks data) = data := by
  have hbyte : (UInt8.ofNat (16 - data.length % 16)).toNat = 16 - data.length % 16 := by
    rw [UInt8.toNat_ofNat']
    omega
  have hlength : (padBlocks data).length = data.length + (16 - data.length % 16) := by
    rw [padBlocks, List.length_append, List.length_replicate]
  rw [unpadBlocks, padBlocks_last, Option.getD_some, hbyte, hlength, Nat.add_sub_cancel, padBlocks, List.take_left]

/-- Padding ends in a byte of at most 16. -/
theorem padBlocks_ne (data : List UInt8) {cipher : List UInt8} {b : UInt8} (hlast : cipher.getLast? = some b)
    (hb : 16 < b.toNat) : padBlocks data ≠ cipher := by
  intro h
  have hpad := padBlocks_last data
  rw [h, hlast, Option.some.injEq] at hpad
  have hbyte := congrArg UInt8.toNat hpad
  rw [UInt8.toNat_ofNat'] at hbyte
  omega

theorem tableCiphers_lawful : tableCiphers.Lawful where
  decrypt_encrypt _ data := by
    show (if (if data = [] then emptyCipher else if data = passData then passCipher else padBlocks data) = emptyCipher
      then some []
      else if (if data = [] then emptyCipher else if data = passData then passCipher else padBlocks data) = passCipher
        then some passData
        else some (unpadBlocks
          (if data = [] then emptyCipher else if data = passData then passCipher else padBlocks data))) = some data
    by_cases hnil : data = []
    · rw [if_pos hnil, if_pos rfl, hnil]
    · rw [if_neg hnil]
      by_cases hpass : data = passData
      · rw [if_pos hpass, if_neg (by decide), if_pos rfl, hpass]
      · rw [if_neg hpass, if_neg (padBlocks_ne data rfl (by decide)), if_neg (padBlocks_ne data rfl (by decide)),
          unpadBlocks_padBlocks]
  length_encrypt _ data := by
    show (if data = [] then emptyCipher else if data = passData then passCipher else padBlocks data).length = _
    split
    next hnil =>
      rw [hnil]
      decide
    next =>
      split
      next hpass =>
        rw [hpass]
        decide
      next =>
        rw [padBlocks, List.length_append, List.length_replicate]
        omega
  length_hmac _ data := by
    show (if data = tableSigned [0, 0] emptyCipher then _
      else if data = tableSigned [0x70, 0, 0x77, 0, 0, 0] passCipher then _ else _ : List UInt8).length = 32
    split
    next => rfl
    next =>
      split
      next => rfl
      next => rfl

theorem writeDataBlob_holds (m : ByteMemory) {data : List UInt8} {ptrSize addr buf : Nat} (hptr : 4 ≤ ptrSize)
    (hbuf : addr + 2 * ptrSize ≤ buf) :
    (m.writeAll (writeDataBlob ptrSize addr buf data)).HoldsDataBlob ptrSize addr buf data := by
  have hapart : (writeDataBlob ptrSize addr buf data).Pairwise
      fun v w => v.1 + v.2.length ≤ w.1 ∨ w.1 + w.2.length ≤ v.1 := by
    simp only [writeDataBlob, List.pairwise_cons, List.mem_cons, List.not_mem_nil, or_false, forall_eq_or_imp, forall_eq,
      toBytes_length, List.Pairwise.nil, and_true, false_imp_iff, implies_true]
    omega
  exact ⟨holds_writeAll hapart (w := (addr, toBytes 4 data.length)) (by simp [writeDataBlob]),
    holds_writeAll hapart (w := (addr + ptrSize, toBytes ptrSize buf)) (by simp [writeDataBlob]),
    holds_writeAll hapart (w := (buf, data)) (by simp [writeDataBlob])⟩

/-- `passData`, the description `pw` and `saltEntropy`, with the structures of the two blobs. -/
def passMemory : ByteMemory :=
  ByteMemory.writeAll (fun _ => 0) [(0x100, charBytes 2 [0x70, 0x77]), (0x300, toBytes 4 4), (0x304, toBytes 4 0x320),
    (0x320, passData), (0x380, toBytes 4 4), (0x384, toBytes 4 0x3A0), (0x3A0, saltEntropy)]

/-- No data, no description and no entropy; at 0x100 lies a first half of a pair alone. -/
def loneMemory : ByteMemory := fun a => if a = 0x101 then 0xD8 else 0

/-- The memory after a call left its blob there. -/
def protectedMemory (m : ByteMemory) (pOptionalEntropy : Nat) (us : List Nat) : ByteMemory :=
  m.writeAll (writeDataBlob 4 0x400 0x5000 (tableCiphers.madeFields (m.readDataBlob 4 0x300)
    (m.readEntropy 4 pOptionalEntropy) (decodeUnits replace us) 0).bytes)

theorem protectedMemory_keeps {m : ByteMemory} {us : List Nat} {fuel szDataDescr pOptionalEntropy : Nat}
    (hdescr : DescriptionAt m szDataDescr us) (hfuel : us.length < fuel) {blob : List UInt8}
    (h : m.cryptProtectData tableCiphers (fun _ _ => 0x5000) fuel 4 0x300 szDataDescr pOptionalEntropy 0 0x400 =
      some ⟨1, some cryptErrorSuccess, writeDataBlob 4 0x400 0x5000 blob⟩) :
    (protectedMemory m pOptionalEntropy us).HoldsDataBlob 4 0x400 0x5000 blob := by
  have hblob := @protected_eq tableCiphers (fun _ _ => 0x5000) m fuel 4 0x300 szDataDescr pOptionalEntropy 0 0x400 us
    (by decide) (by decide) hdescr hfuel blob h
  rw [hblob]
  exact writeDataBlob_holds m (by decide) (by decide)

/-- What lies below the pointer to the blob stays. -/
theorem protectedMemory_reads (m : ByteMemory) (pOptionalEntropy : Nat) (us : List Nat) {a count : Nat}
    (h : a + count ≤ 0x400) : (protectedMemory m pOptionalEntropy us).readBytes a count = m.readBytes a count := by
  apply readBytes_writeAll_of_apart
  intro w hw
  simp only [writeDataBlob, List.mem_cons, List.not_mem_nil, or_false] at hw
  left
  rcases hw with rfl | rfl | rfl
  · exact Nat.le_trans h (by decide : 0x400 ≤ 0x5000)
  · exact h
  · exact Nat.le_trans h (by decide : 0x400 ≤ 0x404)

theorem passMemory_description : DescriptionAt passMemory 0x100 [0x70, 0x77] := by
  rw [DescriptionAt, if_neg (by decide)]
  refine ⟨?_, by decide⟩
  unfold Holds
  decide

theorem passMemory_data : passMemory.readDataBlob 4 0x300 = passData := by decide

theorem protectedMemory_entropy (us : List Nat) :
    (protectedMemory passMemory 0x380 us).readEntropy 4 0x380 = passMemory.readEntropy 4 0x380 := by
  have hint : ∀ a, a + 4 ≤ 0x400 → (protectedMemory passMemory 0x380 us).readInt a 4 = passMemory.readInt a 4 :=
    fun a ha => congrArg fromBytes (protectedMemory_reads _ _ us ha)
  have hsize : passMemory.readInt 0x380 4 = 4 := by decide
  have hdata : passMemory.readInt (0x380 + 4) 4 = 0x3A0 := by decide
  unfold readEntropy readDataBlob
  simp only [hint 0x380 (by decide), hint (0x380 + 4) (by decide), hsize, hdata]
  rw [protectedMemory_reads _ _ us (by decide)]

theorem loneMemory_description : DescriptionAt loneMemory 0x100 [0xD800] := by
  rw [DescriptionAt, if_neg (by decide)]
  refine ⟨?_, by decide⟩
  unfold Holds
  decide

/-- The data and the description have blocks of their own. -/
def twoBlocks (n _size : Nat) : Nat := if n = 0 then 0x6000 else 0x7000

theorem cryptEncodings_law_pass :
    ∃ blob, passMemory.cryptProtectData tableCiphers (fun _ _ => 0x5000) 3 4 0x300 0x100 0x380 0 0x400 =
        some ⟨1, some cryptErrorSuccess, writeDataBlob 4 0x400 0x5000 blob⟩ ∧
      Unprotects twoBlocks 4 0x700 0x800 (passMemory.readDataBlob 4 0x300) [0x70, 0x77]
        ((protectedMemory passMemory 0x380 [0x70, 0x77]).cryptUnprotectData tableCiphers twoBlocks 4 0x400 0x700 0x380
          0x800) :=
  (@cryptEncodings_law passMemory 3 [0x70, 0x77] tableCiphers (fun _ _ => 0x5000) twoBlocks
    (protectedMemory passMemory 0x380 [0x70, 0x77]) 4 0x300 0x100 0x380 0 0x400 0x400 0x700 0x380 0x800 tableCiphers_lawful
    (fun _ _ => by decide) (by decide) (by decide) (by decide) (by decide) (by decide) passMemory_description (by decide)
    (protectedMemory_entropy _) fun _ h => protectedMemory_keeps passMemory_description (by decide) h).1.mpr
    ⟨by decide, by rw [passMemory_data]; decide⟩

/-- An unpaired surrogate of the description comes back as U+FFFD. -/
theorem cryptProtectData_unpaired :
    ¬∃ blob, loneMemory.cryptProtectData tableCiphers (fun _ _ => 0x5000) 2 4 0x300 0x100 0 0 0x400 =
        some ⟨1, some cryptErrorSuccess, writeDataBlob 4 0x400 0x5000 blob⟩ ∧
      Unprotects twoBlocks 4 0x700 0x800 (loneMemory.readDataBlob 4 0x300) [0xD800]
        ((protectedMemory loneMemory 0 [0xD800]).cryptUnprotectData tableCiphers twoBlocks 4 0x400 0x700 0 0x800) := by
  intro h
  have hright := (@unprotects_iff tableCiphers (fun _ _ => 0x5000) twoBlocks loneMemory
    (protectedMemory loneMemory 0 [0xD800]) 2 4 0x300 0x100 0 0 0x400 0x400 0x700 0 0x800 [0xD800] tableCiphers_lawful
    (fun _ _ => by decide) (by decide) (by decide) (by decide) (by decide) (by decide) loneMemory_description (by decide) rfl
    fun _ h => protectedMemory_keeps loneMemory_description (by decide) h).mp h
  exact hright.1 ⟨.single 0xD800, List.mem_singleton_self _, rfl⟩

end Speakeasy
