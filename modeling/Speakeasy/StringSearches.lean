import Speakeasy.CaseFolding
import Speakeasy.CountedStringTexts

namespace Speakeasy

/-- `hay.find(needle)`. -/
def findText (needle : List Nat) : List Nat → Option Nat
  | [] => if needle = [] then some 0 else none
  | c :: cs => if needle <+: c :: cs then some 0 else (findText needle cs).map (· + 1)

/-- What `StrStr` returns for the texts that it read. -/
def searchAddress (start width : Nat) (needle hay : List Nat) : Nat :=
  if needle = [] then 0
  else
    match findText needle hay with
    | some ret => start + ret * width
    | none => 0

namespace ByteMemory

def readMemString (m : ByteMemory) (fuel address width : Nat) : Option (List Nat) :=
  if width = 1 then
    (m.memStringChars 1 0 fuel address 0).map fun us => (us.map decodeAnsiChar).filter (· ≠ 0)
  else if width = 2 then m.readWideString fuel address 0
  else none

/-- `StrStr` and `StrStrI`, with what each does to the texts before it looks. -/
def searchString (fold : List Nat → List Nat) (m : ByteMemory) (fuel cw pszFirst pszSrch : Nat) : Option Nat := do
  let hay ← if pszFirst ≠ 0 then (m.readMemString fuel pszFirst cw).map fold else some []
  let needle ← if pszSrch ≠ 0 then (m.readMemString fuel pszSrch cw).map fold else some []
  if pszFirst = 0 ∨ pszSrch = 0 then some 0 else some (searchAddress pszFirst cw needle hay)

def strStr (m : ByteMemory) (fuel cw pszFirst pszSrch : Nat) : Option Nat :=
  m.searchString id fuel cw pszFirst pszSrch

def strStrI (T : CaseTables) (m : ByteMemory) (fuel cw pszFirst pszSrch : Nat) : Option Nat :=
  m.searchString T.lower fuel cw pszFirst pszSrch

/-- The loop of `find_char`. -/
def findCharLoop (m : ByteMemory) (fold : List Nat → List Nat) (stop : Nat) (char : List Nat) (cw : Nat) (last : Bool) :
    Nat → Nat → Nat → Option Nat
  | 0, _, _ => none
  | fuel + 1, addr, found =>
    if stop = 0 ∨ addr < stop then
      let unit := m.readInt addr cw
      if unit = 0 then some found
      else if fold [unit] = char then
        if last then findCharLoop m fold stop char cw last fuel (addr + cw) addr else some addr
      else findCharLoop m fold stop char cw last fuel (addr + cw) found
    else some found

def findChar (T : CaseTables) (m : ByteMemory) (fuel start stop char cw : Nat) (ignoreCase last : Bool) : Option Nat :=
  if start = 0 then some 0
  else
    let fold := if ignoreCase then T.lower else id
    m.findCharLoop fold stop (fold [char % if cw = 2 then 0x10000 else 0x100]) cw last fuel start 0

def strRChr (T : CaseTables) (m : ByteMemory) (fuel cw pszStart pszEnd wMatch : Nat) : Option Nat :=
  m.findChar T fuel pszStart pszEnd wMatch cw false true

def pathFindExtension (m : ByteMemory) (fuel cw pszPath : Nat) : Option Nat := do
  let s ← m.readMemString fuel pszPath cw
  let start := (rfindChar 0x5C s).elim 0 (· + 1)
  match rfindChar 0x2E (s.drop start) with
  | none => some (pszPath + s.length * cw)
  | some idx2 => some (pszPath + (start + idx2) * cw)

def pathFindFileName (m : ByteMemory) (fuel cw pszPath : Nat) : Option Nat := do
  let s ← m.readMemString fuel pszPath cw
  match rfindChar 0x5C s with
  | none => some pszPath
  | some idx => some (pszPath + (idx + 1) * cw)

end ByteMemory

/-- The address of the first place of `us` at which `ns` stands: 0 when it stands nowhere or is empty. -/
def FirstMatch {β : Type} (start width : Nat) (us ns : List β) (ret : Nat) : Prop :=
  (ret = 0 ∧ (ns = [] ∨ ¬ns <:+: us)) ∨
    ∃ i, ns ≠ [] ∧ ret = start + i * width ∧ ns <+: us.drop i ∧ ∀ j < i, ¬ns <+: us.drop j

/-- A path is cut behind its last backslash. -/
structure CutPath (us dir name : List Nat) : Prop where
  whole : us = dir ++ name
  dir : dir = [] ∨ ∃ parts, dir = parts ++ [0x5C]
  name : 0x5C ∉ name

/-- The number of units before the extension of a name: those before its last dot, or all. -/
def ExtensionAt (name : List Nat) (i : Nat) : Prop :=
  (0x2E ∉ name ∧ i = name.length) ∨ ∃ stem ext, name = stem ++ 0x2E :: ext ∧ 0x2E ∉ ext ∧ i = stem.length

theorem infix_iff_drop {β : Type} {ns us : List β} : ns <:+: us ↔ ∃ i, ns <+: us.drop i := by
  constructor
  · rintro ⟨pre, suf, heq⟩
    refine ⟨pre.length, suf, ?_⟩
    rw [← heq, List.append_assoc, List.drop_left]
  · rintro ⟨i, h⟩
    exact h.isInfix.trans (List.drop_suffix i us).isInfix

section Find

variable {needle hay : List Nat} {i : Nat}

theorem findText_some (h : findText needle hay = some i) :
    needle <+: hay.drop i ∧ ∀ j < i, ¬needle <+: hay.drop j := by
  induction hay generalizing i with
  | nil =>
    rw [findText] at h
    split at h
    next hempty =>
      cases h
      exact ⟨hempty ▸ List.nil_prefix, fun j hj => absurd hj (Nat.not_lt_zero j)⟩
    next => cases h
  | cons c cs ih =>
    rw [findText] at h
    split at h
    next hpre =>
      cases h
      exact ⟨hpre, fun j hj => absurd hj (Nat.not_lt_zero j)⟩
    next hpre =>
      obtain ⟨k, hk, rfl⟩ := Option.map_eq_some_iff.mp h
      obtain ⟨hmatch, hfirst⟩ := ih hk
      refine ⟨hmatch, ?_⟩
      intro j hj
      cases j with
      | zero => exact hpre
      | succ j => exact hfirst j (by omega)

theorem findText_none (h : findText needle hay = none) (j : Nat) : ¬needle <+: hay.drop j := by
  induction hay generalizing j with
  | nil =>
    rw [findText] at h
    split at h
    next => cases h
    next hne =>
      rw [List.drop_nil, List.prefix_nil]
      exact hne
  | cons c cs ih =>
    rw [findText] at h
    split at h
    next => cases h
    next hpre =>
      cases j with
      | zero => exact hpre
      | succ j => exact ih (Option.map_eq_none_iff.mp h) j

/-- A match that nothing precedes is the one that is found. -/
theorem findText_eq (hmatch : needle <+: hay.drop i) (hfirst : ∀ j < i, ¬needle <+: hay.drop j) :
    findText needle hay = some i := by
  cases hfind : findText needle hay with
  | none => exact absurd hmatch (findText_none hfind i)
  | some k =>
    obtain ⟨hk, hbefore⟩ := findText_some hfind
    have hle : ¬i < k := fun hlt => hbefore i hlt hmatch
    have hge : ¬k < i := fun hlt => hfirst k hlt hk
    rw [show k = i by omega]

theorem findText_of_match (hmatch : needle <+: hay.drop i) : ∃ k ≤ i, findText needle hay = some k := by
  cases hfind : findText needle hay with
  | none => exact absurd hmatch (findText_none hfind i)
  | some k =>
    have hbefore := (findText_some hfind).2
    exact ⟨k, Nat.le_of_not_lt fun hlt => hbefore i hlt hmatch, rfl⟩

end Find

section Matches

variable {β : Type} {us ns : List β} {needle hay : List Nat} {start width ret i : Nat}

/-- Where a text matches just as the units do, the search finds the units. -/
theorem firstMatch_searchAddress (hempty : needle = [] ↔ ns = []) (h : ∀ i, needle <+: hay.drop i ↔ ns <+: us.drop i)
    (start width : Nat) : FirstMatch start width us ns (searchAddress start width needle hay) := by
  unfold searchAddress
  split
  next hnil => exact Or.inl ⟨rfl, Or.inl (hempty.mp hnil)⟩
  next hne =>
    split
    next ret hfind =>
      obtain ⟨hmatch, hfirst⟩ := findText_some hfind
      exact Or.inr ⟨ret, fun hnil => hne (hempty.mpr hnil), rfl, (h ret).mp hmatch,
        fun j hj hj' => hfirst j hj ((h j).mpr hj')⟩
    next hfind =>
      refine Or.inl ⟨rfl, Or.inr ?_⟩
      rw [infix_iff_drop]
      rintro ⟨i, hi⟩
      exact findText_none hfind i ((h i).mpr hi)

theorem FirstMatch.of_found (h : FirstMatch start width us ns (searchAddress start width needle hay)) (hstart : 0 < start)
    (hwidth : 0 < width) (hne : needle ≠ []) (hfind : findText needle hay = some i) : ns <+: us.drop i := by
  rw [searchAddress, if_neg hne, hfind] at h
  rcases h with ⟨hzero, -⟩ | ⟨k, -, heq, hmatch, -⟩
  · simp only at hzero
    omega
  · have hk : i * width = k * width := Nat.add_left_cancel heq
    rw [Nat.eq_of_mul_eq_mul_right hwidth hk]
    exact hmatch

theorem FirstMatch.found_of (h : FirstMatch start width us ns (searchAddress start width needle hay)) (hstart : 0 < start)
    (hwidth : 0 < width) (hns : ns ≠ []) (hmatch : ns <+: us.drop i) (hfirst : ∀ j < i, ¬ns <+: us.drop j) :
    findText needle hay = some i := by
  rcases h with ⟨-, hnil | hno⟩ | ⟨k, -, heq, hk, hbefore⟩
  · exact absurd hnil hns
  · exact absurd (infix_iff_drop.mpr ⟨i, hmatch⟩) hno
  · have hle : ¬i < k := fun hlt => hbefore i hlt hmatch
    have hge : ¬k < i := fun hlt => hfirst k hlt hk
    have hki : k = i := by omega
    unfold searchAddress at heq
    split at heq
    next => omega
    next =>
      split at heq
      next ret hfind =>
        have hret : ret * width = k * width := Nat.add_left_cancel heq
        rw [hfind, Nat.eq_of_mul_eq_mul_right hwidth hret, hki]
      next => omega

end Matches

theorem rfindChar_cases (c : Nat) (us : List Nat) :
    (c ∉ us ∧ rfindChar c us = none) ∨
      ∃ xs ys, us = xs ++ c :: ys ∧ c ∉ ys ∧ rfindChar c us = some xs.length := by
  rcases last_split (· = c) us with hnone | ⟨xs, d, ys, rfl, rfl, hys⟩
  · have hnot : c ∉ us := fun hmem => hnone c hmem rfl
    exact Or.inl ⟨hnot, rfindChar_eq_none hnot⟩
  · have hnot : d ∉ ys := fun hmem => hys d hmem rfl
    exact Or.inr ⟨xs, ys, rfl, hnot, rfindChar_last xs hnot⟩

theorem cutPath_exists (us : List Nat) :
    ∃ dir name, CutPath us dir name ∧ (rfindChar 0x5C us).elim 0 (· + 1) = dir.length := by
  rcases rfindChar_cases 0x5C us with ⟨hnot, hfind⟩ | ⟨xs, ys, rfl, hnot, hfind⟩
  · exact ⟨[], us, ⟨rfl, Or.inl rfl, hnot⟩, by rw [hfind]; rfl⟩
  · refine ⟨xs ++ [0x5C], ys, ⟨by simp, Or.inr ⟨xs, rfl⟩, hnot⟩, ?_⟩
    rw [hfind, List.length_append]
    rfl

/-- A decoder that takes each unit alone and neither makes nor loses a backslash or a dot. -/
structure PathDecoder (dec : Nat → Nat) (us : List Nat) : Prop where
  backslash : ∀ u ∈ us, dec u = 0x5C ↔ u = 0x5C
  dot : ∀ u ∈ us, dec u = 0x2E ↔ u = 0x2E

theorem rfindChar_map {dec : Nat → Nat} {c : Nat} {us : List Nat} (h : ∀ u ∈ us, dec u = c ↔ u = c) :
    rfindChar c (us.map dec) = rfindChar c us := by
  have hmiss : ∀ ys : List Nat, (∀ y ∈ ys, y ∈ us) → c ∉ ys → c ∉ ys.map dec := by
    intro ys hys hnot hmem
    obtain ⟨y, hy, hdec⟩ := List.mem_map.mp hmem
    exact hnot ((h y (hys y hy)).mp hdec ▸ hy)
  rcases rfindChar_cases c us with ⟨hnot, hfind⟩ | ⟨xs, ys, heq, hnot, hfind⟩
  · rw [hfind, rfindChar_eq_none (hmiss us (fun _ hy => hy) hnot)]
  · have hc : dec c = c := (h c (by simp [heq])).mpr rfl
    have hys := hmiss ys (fun y hy => by simp [heq, hy]) hnot
    rw [hfind, heq, List.map_append, List.map_cons, hc, rfindChar_last _ hys, List.length_map]

namespace ByteMemory

variable {m : ByteMemory} {cw fuel a : Nat} {us dir name : List Nat} {dec : Nat → Nat}

theorem pathFindFileName_eq (hread : m.readMemString fuel a cw = some (us.map dec)) (hdec : PathDecoder dec us)
    (hcut : (rfindChar 0x5C us).elim 0 (· + 1) = dir.length) :
    m.pathFindFileName fuel cw a = some (a + dir.length * cw) := by
  unfold pathFindFileName
  rw [hread]
  show (match rfindChar 0x5C (us.map dec) with
    | none => some a
    | some idx => some (a + (idx + 1) * cw)) = _
  rw [rfindChar_map hdec.backslash, ← hcut]
  cases rfindChar 0x5C us with
  | none =>
    show some a = some (a + 0 * cw)
    rw [Nat.zero_mul, Nat.add_zero]
  | some idx => rfl

theorem pathFindExtension_eq (hread : m.readMemString fuel a cw = some (us.map dec)) (hdec : PathDecoder dec us)
    (hpath : CutPath us dir name) (hcut : (rfindChar 0x5C us).elim 0 (· + 1) = dir.length) :
    m.pathFindExtension fuel cw a =
      some (a + (dir.length + (rfindChar 0x2E name).elim name.length id) * cw) := by
  have hname : us.drop dir.length = name := by rw [hpath.whole, List.drop_left]
  have hdots : ∀ u ∈ name, dec u = 0x2E ↔ u = 0x2E := fun u hu => hdec.dot u (by simp [hpath.whole, hu])
  have hlen : us.length = dir.length + name.length := by rw [hpath.whole, List.length_append]
  unfold pathFindExtension
  rw [hread]
  show (match rfindChar 0x2E ((us.map dec).drop ((rfindChar 0x5C (us.map dec)).elim 0 (· + 1))) with
    | none => some (a + (us.map dec).length * cw)
    | some idx2 => some (a + ((rfindChar 0x5C (us.map dec)).elim 0 (· + 1) + idx2) * cw)) = _
  rw [rfindChar_map hdec.backslash, hcut, ← List.map_drop, hname, rfindChar_map hdots, List.length_map, hlen]
  cases rfindChar 0x2E name with
  | none => rfl
  | some idx2 => rfl

theorem extensionAt_rfindChar (name : List Nat) : ExtensionAt name ((rfindChar 0x2E name).elim name.length id) := by
  rcases rfindChar_cases 0x2E name with ⟨hnot, hfind⟩ | ⟨stem, ext, heq, hnot, hfind⟩
  · exact Or.inl ⟨hnot, by rw [hfind]; rfl⟩
  · exact Or.inr ⟨stem, ext, heq, hnot, by rw [hfind]; rfl⟩

theorem HoldsString.drop (h : m.HoldsString cw a us) {i : Nat} (hi : i ≤ us.length) :
    m.HoldsString cw (a + i * cw) (us.drop i) where
  holds := by
    have hcut : (us ++ [0]).drop i = us.drop i ++ [0] := List.drop_append_of_le_length hi
    have hle : i * cw + (charBytes cw (us.drop i ++ [0])).length ≤ (charBytes cw (us ++ [0])).length := by
      rw [charBytes_length, charBytes_length, ← Nat.add_mul, List.length_append, List.length_append, List.length_drop]
      exact Nat.mul_le_mul_right cw (by omega)
    have hpart := h.holds.part hle
    rw [charBytes_drop, hcut, List.take_length] at hpart
    exact hpart
  chars c hc := h.chars c (List.mem_of_mem_drop hc)

/-- One turn of the loop of `StrRChr`: it goes on behind a unit, and from the character it keeps the address. -/
theorem findCharLoop_step {u c found : Nat} (h : m.HoldsString cw a (u :: us)) (fuel : Nat) :
    m.HoldsString cw (a + cw) us ∧
      m.findCharLoop id 0 [c] cw true (fuel + 1) a found =
        m.findCharLoop id 0 [c] cw true fuel (a + cw) (if u = c then a else found) := by
  have hunit := h.readInt_get (i := 0) (Nat.zero_le _)
  rw [Nat.zero_mul, Nat.add_zero, List.cons_append, List.getD_cons_zero] at hunit
  have hpos := (h.chars u List.mem_cons_self).1
  have htail := h.drop (i := 1) (by simp)
  rw [Nat.one_mul, List.drop_one, List.tail_cons] at htail
  refine ⟨htail, ?_⟩
  rw [findCharLoop, if_pos (Or.inl rfl), hunit]
  simp only
  rw [if_neg (by omega)]
  by_cases hc : u = c
  · have heq : id [u] = [c] := congrArg (fun x => [x]) hc
    rw [if_pos heq, if_pos trivial, if_pos hc]
  · have hne : id [u] ≠ [c] := fun heq => hc (List.cons.inj heq).1
    rw [if_neg hne, if_neg hc]

/-- The loop passes the units that are another character. -/
theorem findCharLoop_pass {c found : Nat} (h : m.HoldsString cw a us) (hus : c ∉ us) (hfuel : us.length < fuel) :
    m.findCharLoop id 0 [c] cw true fuel a found = some found := by
  obtain ⟨fuel, rfl⟩ := Nat.exists_eq_succ_of_ne_zero (show fuel ≠ 0 by omega)
  induction us generalizing a fuel with
  | nil =>
    have hend := h.readInt_get (i := 0) (Nat.le_refl 0)
    rw [Nat.zero_mul, Nat.add_zero] at hend
    rw [findCharLoop, if_pos (Or.inl rfl), hend]
    rfl
  | cons u us ih =>
    obtain ⟨htail, hstep⟩ := @findCharLoop_step m cw a us u c found h fuel
    have hne : u ≠ c := fun heq => hus (heq ▸ List.mem_cons_self)
    rw [List.length_cons] at hfuel
    obtain ⟨fuel, rfl⟩ := Nat.exists_eq_succ_of_ne_zero (show fuel ≠ 0 by omega)
    rw [hstep, if_neg hne]
    exact ih htail (fun hmem => hus (List.mem_cons_of_mem _ hmem)) fuel (by omega)

/-- The loop keeps the address of the last unit that is the character. -/
theorem findCharLoop_last {xs ys : List Nat} {c found : Nat} (h : m.HoldsString cw a (xs ++ c :: ys)) (hys : c ∉ ys)
    (hfuel : (xs ++ c :: ys).length < fuel) :
    m.findCharLoop id 0 [c] cw true fuel a found = some (a + xs.length * cw) := by
  obtain ⟨fuel, rfl⟩ := Nat.exists_eq_succ_of_ne_zero (show fuel ≠ 0 by omega)
  induction xs generalizing a fuel found with
  | nil =>
    obtain ⟨htail, hstep⟩ := @findCharLoop_step m cw a ys c c found h fuel
    rw [List.nil_append, List.length_cons] at hfuel
    rw [hstep, if_pos rfl, findCharLoop_pass htail hys (by omega), List.length_nil, Nat.zero_mul, Nat.add_zero]
  | cons x xs ih =>
    obtain ⟨htail, hstep⟩ := @findCharLoop_step m cw a (xs ++ c :: ys) x c found h fuel
    rw [List.cons_append, List.length_cons] at hfuel
    obtain ⟨fuel, rfl⟩ := Nat.exists_eq_succ_of_ne_zero (show fuel ≠ 0 by omega)
    rw [hstep, ih htail fuel (by omega), List.length_cons, Nat.succ_mul]
    congr 1
    omega

/-- `StrRChr` to the terminator goes by the units. -/
theorem strRChr_eq (T : CaseTables) (h : m.HoldsString cw a us) (ha : 0 < a) (hfuel : us.length < fuel) {c : Nat}
    (hc : c < 0x100) :
    m.strRChr T fuel cw a 0 c = some ((rfindChar c us).elim 0 fun i => a + i * cw) := by
  have hmod : c % (if cw = 2 then 0x10000 else 0x100) = c := by
    split
    next => omega
    next => omega
  unfold strRChr findChar
  rw [if_neg (by omega), hmod]
  show m.findCharLoop id 0 [c] cw true fuel a 0 = _
  rcases rfindChar_cases c us with ⟨hnot, hfind⟩ | ⟨xs, ys, rfl, hnot, hfind⟩
  · rw [hfind, findCharLoop_pass h hnot hfuel]
    rfl
  · rw [hfind, findCharLoop_last h hnot hfuel]
    rfl

end ByteMemory

end Speakeasy
