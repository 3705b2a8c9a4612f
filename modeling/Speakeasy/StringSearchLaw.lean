import Speakeasy.StringSearches

namespace Speakeasy

open ByteMemory

/-- A unit as the search without case sees it. -/
def foldUnit (T : CaseTables) (cw u : Nat) : List Nat := T.lower [if cw = 1 then decodeAnsiChar u else u]

/-- UTF-16 text in which each unit is one character and has one lower case, whatever stands around it. -/
structure UnitWise (T : CaseTables) (us : List Nat) : Prop where
  plain : ∀ u ∈ us, ¬isSurrogate u ∧ u ≠ 0xFFFD
  dotted : ¬T.DottedI us
  sigma : ¬T.SigmaAfterCased us

/-- `PathFindFileName` and `PathFindExtension` return the addresses of the parts, and these are the ones that
`StrRChr` leads to. -/
structure PathPartsRight (T : CaseTables) (m : ByteMemory) (fuel cw pszPath : Nat) (us : List Nat) : Prop where
  parts : ∃ dir name i, CutPath us dir name ∧ ExtensionAt name i ∧
    m.pathFindFileName fuel cw pszPath = some (pszPath + dir.length * cw) ∧
    m.pathFindExtension fuel cw pszPath = some (pszPath + (dir.length + i) * cw)
  backslash : ∃ r, m.strRChr T fuel cw pszPath 0 0x5C = some r ∧
    m.pathFindFileName fuel cw pszPath = some (if r = 0 then pszPath else r + cw)
  dot : ∃ name r, m.pathFindFileName fuel cw pszPath = some name ∧ m.strRChr T fuel cw name 0 0x2E = some r ∧
    m.pathFindExtension fuel cw pszPath = some (if r = 0 then pszPath + us.length * cw else r)

/-- What the searches in a text owe, whatever memory holds it and whatever is looked for. -/
def SearchesRight (T : CaseTables) (cw : Nat) (us : List Nat) : Prop :=
  ∀ m fuel pszFirst pszSrch ns, 0 < pszFirst → 0 < pszSrch → ByteMemory.HoldsString m cw pszFirst us →
    ByteMemory.HoldsString m cw pszSrch ns → us.length < fuel → ns.length < fuel →
    (∃ r, m.strStr fuel cw pszFirst pszSrch = some r ∧ FirstMatch pszFirst cw us ns r) ∧
    (∃ r, m.strStrI T fuel cw pszFirst pszSrch = some r ∧
      FirstMatch pszFirst cw (us.map (foldUnit T cw)) (ns.map (foldUnit T cw)) r) ∧
    PathPartsRight T m fuel cw pszFirst us

/-- The text that is read from units. -/
def unitText (cw : Nat) (us : List Nat) : List Nat :=
  if cw = 1 then us.map decodeAnsiChar else decodeUnits replace us

section Reading

variable {T : CaseTables} {m : ByteMemory} {cw fuel a b : Nat} {us ns dir name : List Nat} {dec : Nat → Nat}

theorem readMemString_eq (hcw : cw = 1 ∨ cw = 2) (h : m.HoldsString cw a us) (hfuel : us.length < fuel) :
    m.readMemString fuel a cw = some (unitText cw us) := by
  rcases hcw with rfl | rfl
  · rw [readMemString, if_pos rfl, h.memStringChars_eq 0 hfuel, Option.map_some]
    exact congrArg some (ansiText.drop us h.chars)
  · rw [readMemString, if_neg (by decide), if_pos rfl, h.readWideString_eq 0 hfuel]
    rfl

theorem searchString_eq (hcw : cw = 1 ∨ cw = 2) (fold : List Nat → List Nat) (ha : 0 < a) (hb : 0 < b)
    (hus : m.HoldsString cw a us) (hns : m.HoldsString cw b ns) (hufuel : us.length < fuel) (hnfuel : ns.length < fuel) :
    m.searchString fold fuel cw a b =
      some (searchAddress a cw (fold (unitText cw ns)) (fold (unitText cw us))) := by
  have hane : a ≠ 0 := by omega
  have hbne : b ≠ 0 := by omega
  have hno : ¬(a = 0 ∨ b = 0) := by omega
  simp only [searchString, if_pos hane, if_pos hbne, readMemString_eq hcw hus hufuel, readMemString_eq hcw hns hnfuel,
    Option.map_some, bind, Option.bind, if_neg hno]

/-- The two functions and `StrRChr` on a text that is read unit by unit. -/
theorem pathPartsRight_of_read (T : CaseTables) (ha : 0 < a) (hus : m.HoldsString cw a us) (hfuel : us.length < fuel)
    (hread : m.readMemString fuel a cw = some (us.map dec)) (hdec : PathDecoder dec us) :
    PathPartsRight T m fuel cw a us := by
  obtain ⟨dir, name, hpath, hcut⟩ := cutPath_exists us
  have hfile := pathFindFileName_eq hread hdec hcut
  have hext := pathFindExtension_eq hread hdec hpath hcut
  have hlen : us.length = dir.length + name.length := by rw [hpath.whole, List.length_append]
  refine ⟨⟨dir, name, _, hpath, extensionAt_rfindChar name, hfile, hext⟩,
    ⟨_, strRChr_eq T hus ha hfuel (by decide), ?_⟩, ?_⟩
  · rw [hfile, ← hcut]
    cases rfindChar 0x5C us with
    | none =>
      show some (a + 0 * cw) = some a
      rw [Nat.zero_mul, Nat.add_zero]
    | some i =>
      show some (a + (i + 1) * cw) = some (if a + i * cw = 0 then a else a + i * cw + cw)
      rw [if_neg (by omega), Nat.succ_mul, Nat.add_assoc]
  · have htail := hus.drop (i := dir.length) (by omega)
    have hname : us.drop dir.length = name := by rw [hpath.whole, List.drop_left]
    rw [hname] at htail
    refine ⟨_, _, hfile, strRChr_eq T htail (by omega) (by omega) (by decide), ?_⟩
    rw [hext, hlen]
    cases rfindChar 0x2E name with
    | none => rfl
    | some i =>
      show some (a + (dir.length + i) * cw) =
        some (if a + dir.length * cw + i * cw = 0 then _ else a + dir.length * cw + i * cw)
      rw [if_neg (by omega), Nat.add_mul, Nat.add_assoc]

end Reading

section Ansi

variable {T : CaseTables} {us ns : List Nat}

theorem decodeAnsiChar_plain {b : Nat} (h : b < 0x100) :
    decodeAnsiChar b ≠ 0x130 ∧ decodeAnsiChar b ≠ 0x3A3 ∧ (decodeAnsiChar b = 0x5C ↔ b = 0x5C) ∧
      (decodeAnsiChar b = 0x2E ↔ b = 0x2E) := by
  unfold decodeAnsiChar
  split
  next hblock =>
    have hentry : ∀ i : Fin 32, ansiBlock.getD i 0 ≠ 0x130 ∧ ansiBlock.getD i 0 ≠ 0x3A3 ∧ ansiBlock.getD i 0 ≠ 0x5C ∧
        ansiBlock.getD i 0 ≠ 0x2E := by decide
    obtain ⟨hdot, hsigma, hback, hperiod⟩ := hentry ⟨b - 0x80, by omega⟩
    exact ⟨hdot, hsigma, iff_of_false hback (by omega), iff_of_false hperiod (by omega)⟩
  next => omega

theorem lower_ansi (h : ∀ u ∈ us, u < 0x100) :
    (T.lower (us.map decodeAnsiChar)).map (fun c => [c]) = us.map (foldUnit T 1) := by
  have hdot : 0x130 ∉ us.map decodeAnsiChar := by
    intro hmem
    obtain ⟨b, hb, heq⟩ := List.mem_map.mp hmem
    exact (decodeAnsiChar_plain (h b hb)).1 heq
  have hsigma : ∀ xs ys, us.map decodeAnsiChar = xs ++ 0x3A3 :: ys → T.meetsCased xs.reverse = false := by
    intro xs ys heq
    have hmem : 0x3A3 ∈ us.map decodeAnsiChar := by simp [heq]
    obtain ⟨b, hb, hdec⟩ := List.mem_map.mp hmem
    exact absurd hdec (decodeAnsiChar_plain (h b hb)).2.1
  rw [CaseTables.lower_eq_map hdot hsigma, List.map_map, List.map_map]
  apply List.map_congr_left
  intro b hb
  show [T.toLower (decodeAnsiChar b)] = T.lower [decodeAnsiChar b]
  rw [CaseTables.lower_singleton (decodeAnsiChar_plain (h b hb)).1]

theorem map_decodeAnsiChar_prefix (hus : ∀ u ∈ us, u < 0x100) (hns : ∀ u ∈ ns, u < 0x100) (i : Nat) :
    ns.map decodeAnsiChar <+: (us.map decodeAnsiChar).drop i ↔ ns <+: us.drop i := by
  have hback : ∀ xs : List Nat, (∀ x ∈ xs, x < 0x100) → (xs.map decodeAnsiChar).map encodeAnsiChar = xs := by
    intro xs hxs
    have hsame : xs.map (encodeAnsiChar ∘ decodeAnsiChar) = xs.map id :=
      List.map_congr_left fun x hx => encodeAnsiChar_decode (hxs x hx)
    rw [List.map_map, hsame, List.map_id]
  rw [← List.map_drop]
  constructor
  · intro h
    have hmap := h.map encodeAnsiChar
    rwa [hback ns hns, hback _ fun x hx => hus x (List.mem_of_mem_drop hx)] at hmap
  · exact fun h => h.map decodeAnsiChar

end Ansi

/-- Texts of one character each match as the characters do. -/
theorem singles_prefix {L E : List Nat} {us ns : List (List Nat)} (hL : L.map (fun c => [c]) = us)
    (hE : E.map (fun c => [c]) = ns) (i : Nat) : E <+: L.drop i ↔ ns <+: us.drop i := by
  have hinj : Function.Injective fun c : Nat => [c] := fun _ _ h => (List.cons.inj h).1
  rw [← hL, ← hE, ← List.map_drop]
  exact (List.prefix_map_iff_of_injective hinj).symm

section Sufficient

variable {T : CaseTables} {cw : Nat} {us ns : List Nat} {dec : Nat → Nat}

/-- The searches are right where the texts match as the units do. -/
theorem searchesRight_of (hcw : cw = 1 ∨ cw = 2) (hread : unitText cw us = us.map dec) (hdec : PathDecoder dec us)
    (hplain : ∀ ns : List Nat, (∀ c ∈ ns, 0 < c ∧ c < 256 ^ cw) → (unitText cw ns = [] ↔ ns = []) ∧
      ∀ i, unitText cw ns <+: (unitText cw us).drop i ↔ ns <+: us.drop i)
    (hfold : ∀ ns : List Nat, (∀ c ∈ ns, 0 < c ∧ c < 256 ^ cw) →
      (T.lower (unitText cw ns) = [] ↔ ns.map (foldUnit T cw) = []) ∧
      ∀ i, T.lower (unitText cw ns) <+: (T.lower (unitText cw us)).drop i ↔
        ns.map (foldUnit T cw) <+: (us.map (foldUnit T cw)).drop i) : SearchesRight T cw us := by
  intro m fuel pszFirst pszSrch ns hfirst hsrch hus hns hufuel hnfuel
  obtain ⟨hempty, hmatch⟩ := hplain ns hns.chars
  obtain ⟨hempty', hmatch'⟩ := hfold ns hns.chars
  refine ⟨⟨_, searchString_eq hcw id hfirst hsrch hus hns hufuel hnfuel, firstMatch_searchAddress hempty hmatch _ _⟩,
    ⟨_, searchString_eq hcw T.lower hfirst hsrch hus hns hufuel hnfuel, firstMatch_searchAddress hempty' hmatch' _ _⟩, ?_⟩
  exact pathPartsRight_of_read T hfirst hus hufuel ((readMemString_eq hcw hus hufuel).trans (congrArg some hread)) hdec

theorem searchesRight_ansi (T : CaseTables) (hus : ∀ u ∈ us, 0 < u ∧ u < 256 ^ 1) : SearchesRight T 1 us := by
  have hlt : ∀ xs : List Nat, (∀ c ∈ xs, 0 < c ∧ c < 256 ^ 1) → ∀ x ∈ xs, x < 0x100 := fun xs hxs x hx => (hxs x hx).2
  have hdec : PathDecoder decodeAnsiChar us :=
    ⟨fun u hu => (decodeAnsiChar_plain (hlt us hus u hu)).2.2.1, fun u hu => (decodeAnsiChar_plain (hlt us hus u hu)).2.2.2⟩
  refine searchesRight_of (Or.inl rfl) rfl hdec ?_ ?_
  · intro ns hns
    exact ⟨List.map_eq_nil_iff, map_decodeAnsiChar_prefix (hlt us hus) (hlt ns hns)⟩
  · intro ns hns
    have hsingles := @lower_ansi T ns (hlt ns hns)
    refine ⟨?_, singles_prefix (lower_ansi (hlt us hus)) hsingles⟩
    rw [← hsingles, List.map_eq_nil_iff]
    rfl

theorem decodeUnits_eq_nil : decodeUnits replace ns = [] ↔ ns = [] := by
  constructor
  · intro h
    have hgroups : unitGroups ns = [] := List.map_eq_nil_iff.mp h
    have hunits := unitGroups_units ns
    rw [hgroups] at hunits
    exact hunits.symm
  · rintro rfl
    rfl

/-- A surrogate reads as part of a character of two units or as U+FFFD. -/
theorem decodeUnits_surrogate {u : Nat} (hu : u ∈ ns) (hs : isSurrogate u) :
    ∃ c ∈ decodeUnits replace ns, c = 0xFFFD ∨ 0x10000 ≤ c := by
  rw [← unitGroups_units ns] at hu
  obtain ⟨g, hg, hug⟩ := List.mem_flatMap.mp hu
  refine ⟨g.char replace, List.mem_map.mpr ⟨g, hg, rfl⟩, ?_⟩
  cases g with
  | single v =>
    have huv : u = v := List.mem_singleton.mp hug
    left
    rw [UnitGroup.char_single, ← huv, if_pos hs]
    rfl
  | pair h l => exact Or.inr (UnitGroup.le_char_pair replace h l)

theorem foldUnit_wide (T : CaseTables) {u : Nat} (h : u ≠ 0x130) : foldUnit T 2 u = [T.toLower u] :=
  CaseTables.lower_singleton h

theorem map_foldUnit_wide (h : 0x130 ∉ ns) : (ns.map T.toLower).map (fun c => [c]) = ns.map (foldUnit T 2) := by
  rw [List.map_map]
  apply List.map_congr_left
  intro u hu
  exact (foldUnit_wide T fun heq => h (heq ▸ hu)).symm

theorem lower_eq_nil {cs : List Nat} : T.lower cs = [] ↔ cs = [] := by
  constructor
  · intro h
    cases cs with
    | nil => rfl
    | cons c cs =>
      have hhead := (List.append_eq_nil_iff.mp h).1
      unfold CaseTables.lowerChar at hhead
      split at hhead
      next => cases hhead
      next =>
        split at hhead
        next => cases hhead
        next => cases hhead
  · rintro rfl
    rfl

namespace UnitWise

theorem no_dotted (h : UnitWise T us) : 0x130 ∉ us := fun hmem => h.dotted (Or.inl hmem)

theorem lower_eq (h : UnitWise T us) : T.lower us = us.map T.toLower := by
  apply CaseTables.lower_eq_map h.no_dotted
  intro xs ys hsplit
  rw [← Bool.not_eq_true]
  intro hcased
  exact h.sigma ⟨xs, 0x3A3, ys, hsplit, Or.inl rfl, hcased⟩

/-- A needle with a surrogate is found in neither way. -/
theorem not_match_surrogate (h : UnitWise T us) (hus : ∀ u ∈ us, u < 0x10000) {u : Nat} (hu : u ∈ ns)
    (hs : isSurrogate u) (i : Nat) :
    ¬decodeUnits replace ns <+: us.drop i ∧ ¬ns <+: us.drop i ∧
      ¬T.lower (decodeUnits replace ns) <+: (us.map T.toLower).drop i ∧
        ¬ns.map (foldUnit T 2) <+: (us.map (foldUnit T 2)).drop i := by
  obtain ⟨c, hc, hbad⟩ := decodeUnits_surrogate hu hs
  have hne : ∀ v, isSurrogate v = true → v ≠ 0x130 := by
    rintro v hv rfl
    cases hv
  refine ⟨?_, ?_, ?_, ?_⟩
  · intro hmatch
    have hmem := List.mem_of_mem_drop (hmatch.subset hc)
    have hlt := hus c hmem
    have hplain := (h.plain c hmem).2
    omega
  · intro hmatch
    exact (h.plain u (List.mem_of_mem_drop (hmatch.subset hu))).1 hs
  · intro hmatch
    have hlower := CaseTables.mem_lowerIn (T := T) hc (by omega) (by omega) [] []
    obtain ⟨v, hv, heq⟩ := List.mem_map.mp (List.mem_of_mem_drop (hmatch.subset hlower))
    have hlt := hus v hv
    have hplain := (h.plain v hv).2
    rcases hbad with rfl | hbad
    · rw [(T.replacement 0xFFFD).mpr rfl] at heq
      exact hplain ((T.replacement v).mp heq)
    · have hplane := (T.plane v).mpr hlt
      rw [heq, T.plane] at hplane
      omega
  · intro hmatch
    have hmem : foldUnit T 2 u ∈ ns.map (foldUnit T 2) := List.mem_map.mpr ⟨u, hu, rfl⟩
    obtain ⟨v, hv, heq⟩ := List.mem_map.mp (List.mem_of_mem_drop (hmatch.subset hmem))
    have hvne : v ≠ 0x130 := fun hdot => h.no_dotted (hdot ▸ hv)
    rw [foldUnit_wide T hvne, foldUnit_wide T (hne u hs)] at heq
    have hsame := T.surrogate v
    rw [(List.cons.inj heq).1, T.surrogate u, hs] at hsame
    exact (h.plain v hv).1 hsame.symm

/-- Without surrogates, the lower case of a needle matches as its folded units do. -/
theorem lower_match (h : UnitWise T us) (i : Nat) :
    T.lower ns <+: (us.map T.toLower).drop i ↔ ns.map (foldUnit T 2) <+: (us.map (foldUnit T 2)).drop i := by
  by_cases hdot : 0x130 ∈ ns
  · apply iff_of_false
    · intro hmatch
      obtain ⟨k, hk⟩ := infix_iff_drop.mp ((CaseTables.infix_lower_dotted (T := T) hdot).trans hmatch.isInfix)
      rw [List.drop_drop] at hk
      exact h.dotted (CaseTables.mem_of_dotted hk)
    · intro hmatch
      have hmem : foldUnit T 2 0x130 ∈ ns.map (foldUnit T 2) := List.mem_map.mpr ⟨0x130, hdot, rfl⟩
      obtain ⟨v, hv, heq⟩ := List.mem_map.mp (List.mem_of_mem_drop (hmatch.subset hmem))
      rw [foldUnit_wide T fun hdot => h.no_dotted (hdot ▸ hv)] at heq
      have hlong : [T.toLower v] = [0x69, 0x307] := heq
      cases (List.cons.inj hlong).2
  · have hsingles := singles_prefix (map_foldUnit_wide (T := T) h.no_dotted) (map_foldUnit_wide (T := T) hdot) i
    constructor
    · intro hmatch
      have hlower := CaseTables.lower_of_match h.sigma hdot (CaseTables.forall₂_lowerIn hdot [] []) hmatch
      rw [hlower] at hmatch
      exact hsingles.mp hmatch
    · intro hmatch
      have hplain := hsingles.mpr hmatch
      rw [CaseTables.lower_of_match h.sigma hdot (CaseTables.forall₂_toLower ns) hplain]
      exact hplain

theorem searchesRight (h : UnitWise T us) (hus : ∀ u ∈ us, u < 0x10000) : SearchesRight T 2 us := by
  have hself : unitText 2 us = us := decodeUnits_self fun u hu => (h.plain u hu).1
  have hdec : PathDecoder id us := ⟨fun _ _ => Iff.rfl, fun _ _ => Iff.rfl⟩
  refine searchesRight_of (Or.inr rfl) (hself.trans (List.map_id us).symm) hdec ?_ ?_
  · intro ns hns
    refine ⟨decodeUnits_eq_nil, fun i => ?_⟩
    rw [hself]
    by_cases hs : ∃ u ∈ ns, isSurrogate u
    · obtain ⟨u, hu, hs⟩ := hs
      obtain ⟨htext, hunits, -, -⟩ := h.not_match_surrogate hus hu hs i
      exact iff_of_false htext hunits
    · have hns' : unitText 2 ns = ns := decodeUnits_self fun u hu hsu => hs ⟨u, hu, hsu⟩
      rw [hns']
  · intro ns hns
    refine ⟨by rw [lower_eq_nil, List.map_eq_nil_iff]; exact decodeUnits_eq_nil, fun i => ?_⟩
    rw [hself, h.lower_eq]
    by_cases hs : ∃ u ∈ ns, isSurrogate u
    · obtain ⟨u, hu, hs⟩ := hs
      obtain ⟨-, -, htext, hunits⟩ := h.not_match_surrogate hus hu hs i
      exact iff_of_false htext hunits
    · have hns' : unitText 2 ns = ns := decodeUnits_self fun u hu hsu => hs ⟨u, hu, hsu⟩
      rw [hns']
      exact h.lower_match i

end UnitWise

end Sufficient

section Necessary

variable {T : CaseTables} {us ns : List Nat}

/-- Two texts in one memory. -/
theorem exists_twoStrings (cw : Nat) (hus : ∀ u ∈ us, 0 < u ∧ u < 256 ^ cw) (hns : ∀ u ∈ ns, 0 < u ∧ u < 256 ^ cw) :
    ∃ m : ByteMemory, m.HoldsString cw 1 us ∧ m.HoldsString cw (1 + (us ++ [0]).length * cw) ns := by
  refine ⟨ByteMemory.writeChars (fun _ => 0) cw 1 ((us ++ [0]) ++ (ns ++ [0])), ⟨?_, hus⟩, ⟨?_, hns⟩⟩
  · have hlen : 0 + (charBytes cw (us ++ [0])).length ≤ (charBytes cw ((us ++ [0]) ++ (ns ++ [0]))).length := by
      rw [charBytes_append cw (us ++ [0]), List.length_append]
      omega
    unfold Holds writeChars
    have hread := @readBytes_writeBytes (fun _ => 0) 1 0 _ _ hlen
    rw [Nat.add_zero, List.drop_zero, charBytes_append, List.take_left] at hread
    rw [charBytes_append]
    exact hread
  · exact writeChars_holds _ cw 1 (us ++ [0]) (ns ++ [0])

/-- What is owed for each needle, of the texts alone. -/
theorem SearchesRight.matches (h : SearchesRight T 2 us) (hus : ∀ u ∈ us, 0 < u ∧ u < 256 ^ 2)
    (hns : ∀ u ∈ ns, 0 < u ∧ u < 256 ^ 2) :
    FirstMatch 1 2 us ns (searchAddress 1 2 (decodeUnits replace ns) (decodeUnits replace us)) ∧
      FirstMatch 1 2 (us.map (foldUnit T 2)) (ns.map (foldUnit T 2))
        (searchAddress 1 2 (T.lower (decodeUnits replace ns)) (T.lower (decodeUnits replace us))) := by
  obtain ⟨m, hm, hm'⟩ := exists_twoStrings 2 hus hns
  have hsrch : 0 < 1 + (us ++ [0]).length * 2 := by omega
  have hufuel : us.length < us.length + ns.length + 1 := by omega
  have hnfuel : ns.length < us.length + ns.length + 1 := by omega
  obtain ⟨⟨r, hr, hmatch⟩, ⟨r', hr', hmatch'⟩, -⟩ := h m _ 1 _ ns Nat.one_pos hsrch hm hm' hufuel hnfuel
  have heq := searchString_eq (Or.inr rfl) id Nat.one_pos hsrch hm hm' hufuel hnfuel
  have heq' := searchString_eq (Or.inr rfl) T.lower Nat.one_pos hsrch hm hm' hufuel hnfuel
  have hval : r = _ := Option.some.inj (hr.symm.trans heq)
  have hval' : r' = _ := Option.some.inj (hr'.symm.trans heq')
  rw [hval] at hmatch
  rw [hval'] at hmatch'
  exact ⟨hmatch, hmatch'⟩

theorem decodeUnits_single {u : Nat} (h : isSurrogate u) : decodeUnits replace [u] = [0xFFFD] := by
  show [(UnitGroup.single u).char replace] = _
  rw [UnitGroup.char_single, if_pos h]
  rfl

/-- A text with a surrogate: its first one with the next unit is a character of two units, or it reads as U+FFFD. -/
theorem first_surrogate (h : ∃ u ∈ us, isSurrogate u) :
    ∃ xs s ys c cs, us = xs ++ s :: ys ∧ (∀ x ∈ xs, ¬isSurrogate x) ∧ isSurrogate s ∧
      decodeUnits replace us = xs ++ c :: cs ∧ (c = 0xFFFD ∨ 0x10000 ≤ c) := by
  induction us with
  | nil =>
    obtain ⟨u, hu, -⟩ := h
    cases hu
  | cons u us ih =>
    by_cases hu : isSurrogate u
    · refine ⟨[], u, us, ?_⟩
      by_cases hpair : isHighSurrogate u ∧ ∃ v ∈ us.head?, isLowSurrogate v
      · obtain ⟨hhigh, v, hv, hlow⟩ := hpair
        cases us with
        | nil => cases hv
        | cons w us =>
          rw [List.head?_cons, Option.mem_some] at hv
          refine ⟨(UnitGroup.pair u w).char replace, decodeUnits replace us, rfl, fun x hx => absurd hx List.not_mem_nil, hu,
            ?_, Or.inr (UnitGroup.le_char_pair replace u w)⟩
          rw [decodeUnits, unitGroups_pair us hhigh (hv ▸ hlow)]
          rfl
      · refine ⟨0xFFFD, decodeUnits replace us, rfl, fun x hx => absurd hx List.not_mem_nil, hu, ?_, Or.inl rfl⟩
        rw [decodeUnits, unitGroups_single hpair, List.map_cons, UnitGroup.char_single, if_pos hu]
        rfl
    · obtain ⟨w, hw, hws⟩ := h
      have hrest : ∃ w ∈ us, isSurrogate w := by
        rcases List.mem_cons.mp hw with rfl | hw
        · exact absurd hws hu
        · exact ⟨w, hw, hws⟩
      obtain ⟨xs, s, ys, c, cs, rfl, hxs, hs, hdec, hc⟩ := ih hrest
      refine ⟨u :: xs, s, ys, c, cs, rfl, ?_, hs, ?_, hc⟩
      · intro x hx
        rcases List.mem_cons.mp hx with rfl | hx
        · exact hu
        · exact hxs x hx
      · have hone : ∀ x ∈ [u], ¬isSurrogate x := fun x hx => List.mem_singleton.mp hx ▸ hu
        have hsplit := @decodeUnits_plain replace _ hone (xs ++ s :: ys)
        rw [hdec] at hsplit
        exact hsplit

theorem drop_prefix_singleton {x : Nat} {i : Nat} : [x] <+: us.drop i ↔ us[i]? = some x := by
  rw [← List.head?_drop]
  cases us.drop i with
  | nil => simp
  | cons y ys => simp [eq_comm]

/-- A surrogate at its first place is not found there by itself, or another one is found in its stead. -/
theorem SearchesRight.no_surrogate (h : SearchesRight T 2 us) (hus : ∀ u ∈ us, 0 < u ∧ u < 256 ^ 2) :
    ∀ u ∈ us, ¬isSurrogate u := by
  by_contra hsome
  push Not at hsome
  obtain ⟨xs, s, ys, c, cs, hsplit, hxs, hs, hdec, hc⟩ := first_surrogate hsome
  have hat : us[xs.length]? = some s := by rw [hsplit, List.getElem?_append_right (Nat.le_refl _), Nat.sub_self]; rfl
  have hbefore : ∀ j < xs.length, ∀ v, us[j]? = some v → ¬isSurrogate v := by
    intro j hj v hv
    rw [hsplit, List.getElem?_append_left hj] at hv
    exact hxs v (List.mem_of_getElem? hv)
  have hvalid : ∀ v, isSurrogate v → 0 < v ∧ v < 256 ^ 2 := by
    intro v hv
    simp only [isSurrogate, Bool.and_eq_true, decide_eq_true_eq] at hv
    omega
  rcases hc with rfl | hc
  · -- any other surrogate reads as U+FFFD too, and is found at the first one or before it
    obtain ⟨v, hv, hne⟩ : ∃ v, isSurrogate v = true ∧ v ≠ s := by
      by_cases heq : s = 0xD800
      · exact ⟨0xD801, by decide, by omega⟩
      · exact ⟨0xD800, by decide, fun h => heq h.symm⟩
    have hns : ∀ w ∈ [v], 0 < w ∧ w < 256 ^ 2 := fun w hw => List.mem_singleton.mp hw ▸ hvalid v hv
    have hmatch := (h.matches hus hns).1
    rw [decodeUnits_single hv, hdec] at hmatch
    have htext : [0xFFFD] <+: (xs ++ 0xFFFD :: cs).drop xs.length := by
      rw [List.drop_left]
      exact ⟨cs, rfl⟩
    obtain ⟨k, hk, hfind⟩ := findText_of_match htext
    have hfound := hmatch.of_found Nat.one_pos (by decide) (by simp) hfind
    rw [drop_prefix_singleton] at hfound
    rcases Nat.lt_or_eq_of_le hk with hlt | rfl
    · exact hbefore k hlt v hfound hv
    · rw [hat] at hfound
      exact hne (Option.some.inj hfound).symm
  · -- the first half of a pair reads as U+FFFD, and the pair does not
    have hns : ∀ w ∈ [s], 0 < w ∧ w < 256 ^ 2 := fun w hw => List.mem_singleton.mp hw ▸ hvalid s hs
    have hmatch := (h.matches hus hns).1
    have hfound := hmatch.found_of Nat.one_pos (by decide) (by simp) (drop_prefix_singleton.mpr hat) (by
      intro j hj hpre
      exact hbefore j hj s (drop_prefix_singleton.mp hpre) hs)
    have htext := (findText_some hfound).1
    rw [decodeUnits_single hs, hdec, List.drop_left, List.cons_prefix_cons] at htext
    omega

theorem SearchesRight.no_replacement (h : SearchesRight T 2 us) (hus : ∀ u ∈ us, 0 < u ∧ u < 256 ^ 2) : 0xFFFD ∉ us := by
  intro hmem
  have hplain := h.no_surrogate hus
  have hns : ∀ w ∈ [0xD800], 0 < w ∧ w < 256 ^ 2 := by decide
  have hmatch := (h.matches hus hns).1
  rw [decodeUnits_self hplain, decodeUnits_single (by decide)] at hmatch
  obtain ⟨xs, ys, rfl⟩ := List.append_of_mem hmem
  have htext : [0xFFFD] <+: (xs ++ 0xFFFD :: ys).drop xs.length := by
    rw [List.drop_left]
    exact ⟨ys, rfl⟩
  obtain ⟨k, -, hfind⟩ := findText_of_match htext
  have hfound := hmatch.of_found Nat.one_pos (by decide) (by simp) hfind
  have hin : 0xD800 ∈ xs ++ 0xFFFD :: ys := List.mem_of_mem_drop (hfound.subset (List.mem_singleton_self _))
  exact hplain _ hin (by decide)

theorem lower_dotted_pair (T : CaseTables) : T.lower [0x69, 0x307] = [0x69, 0x307] := by
  have hmap : T.lower [0x69, 0x307] = [0x69, 0x307].map T.toLower := by
    apply CaseTables.lower_eq_map (by decide)
    intro xs ys hsplit
    have hmem : 0x3A3 ∈ [0x69, 0x307] := by rw [hsplit]; simp
    exact absurd hmem (by decide)
  rw [hmap, List.map_cons, List.map_cons, T.lowerI, (T.dotAbove 0x307).mpr rfl]
  rfl

theorem infix_of_dotted (h : T.DottedI us) : [0x69, 0x307] <:+: T.lower us := by
  by_cases hmem : 0x130 ∈ us
  · exact CaseTables.infix_lower_dotted hmem
  · obtain ⟨xs, c, ys, rfl, hc⟩ := h.resolve_left hmem
    have hne : c ≠ 0x130 := by
      rintro rfl
      exact hmem (by simp)
    have hsigma : c ≠ 0x3A3 := by
      rintro rfl
      rw [T.capitalSigma] at hc
      cases hc
    have hdot : ∀ after, T.lowerChar (c :: xs.reverse) 0x307 after = [0x307] := by
      intro after
      rw [CaseTables.lowerChar, if_neg (by decide), if_neg (by decide), (T.dotAbove 0x307).mpr rfl]
    rw [CaseTables.lower_split, CaseTables.lowerIn, hdot, CaseTables.lowerChar, if_neg hsigma, if_neg hne, hc]
    exact ⟨T.lowerIn [] xs (c :: 0x307 :: ys), T.lowerIn (0x307 :: c :: xs.reverse) ys [], by simp⟩

/-- The dotted capital and the two characters of its lower case are found at one place, and only one of them can be
there. -/
theorem SearchesRight.no_dotted (h : SearchesRight T 2 us) (hus : ∀ u ∈ us, 0 < u ∧ u < 256 ^ 2) : ¬T.DottedI us := by
  intro hdotted
  obtain ⟨i, hi⟩ := infix_iff_drop.mp (infix_of_dotted hdotted)
  obtain ⟨k, -, hfind⟩ := findText_of_match hi
  have hself := @decodeUnits_self replace _ (h.no_surrogate hus)
  have hcapital := (@SearchesRight.matches T us [0x130] h hus (by decide)).2
  have hsmall := (@SearchesRight.matches T us [0x69, 0x307] h hus (by decide)).2
  rw [hself, decodeUnits_self (by decide), CaseTables.lower_dotted] at hcapital
  rw [hself, decodeUnits_self (by decide), lower_dotted_pair] at hsmall
  have hat := hcapital.of_found Nat.one_pos (by decide) (by simp) hfind
  have hat' := hsmall.of_found Nat.one_pos (by decide) (by simp) hfind
  cases hdrop : (us.map (foldUnit T 2)).drop k with
  | nil =>
    rw [hdrop] at hat
    exact absurd (List.prefix_nil.mp hat) (by simp)
  | cons f fs =>
    rw [hdrop, List.map_cons, List.cons_prefix_cons] at hat hat'
    have hsame := hat.1.trans hat'.1.symm
    rw [foldUnit_wide T (show 0x69 ≠ 0x130 by decide)] at hsame
    have hlong : [0x69, 0x307] = [T.toLower 0x69] := hsame
    cases (List.cons.inj hlong).2

/-- Behind a cased character, one of the three forms of sigma is mistaken for another. -/
theorem SearchesRight.no_sigma (h : SearchesRight T 2 us) (hus : ∀ u ∈ us, 0 < u ∧ u < 256 ^ 2) :
    ¬T.SigmaAfterCased us := by
  rintro ⟨xs, c, ys, hsplit, hc, hcased⟩
  have hplain := h.no_surrogate hus
  have hself := @decodeUnits_self replace _ hplain
  have hdotless : 0x130 ∉ us := fun hmem => h.no_dotted hus (Or.inl hmem)
  -- the needles: what stands before the sigma, with each of its forms
  have hneedle : ∀ d, IsSigma d → (∀ u ∈ xs ++ [d], 0 < u ∧ u < 256 ^ 2) ∧
      decodeUnits replace (xs ++ [d]) = xs ++ [d] ∧
      T.lower (xs ++ [d]) = T.lowerIn [] xs (c :: ys) ++ T.lowerChar xs.reverse d [] := by
    intro d hd
    have hdrange : d = 0x3A3 ∨ d = 0x3C3 ∨ d = 0x3C2 := hd
    refine ⟨?_, ?_, ?_⟩
    · intro u hu
      rcases List.mem_append.mp hu with hu | hu
      · exact hus u (by rw [hsplit]; exact List.mem_append_left _ hu)
      · rw [List.mem_singleton.mp hu]
        omega
    · apply decodeUnits_self
      intro u hu
      rcases List.mem_append.mp hu with hu | hu
      · exact hplain u (by rw [hsplit]; exact List.mem_append_left _ hu)
      · rw [List.mem_singleton.mp hu]
        rcases hdrange with rfl | rfl | rfl <;> decide
    · rw [CaseTables.lower_split, CaseTables.lowerIn_stop hd hc [] xs [] ys]
      show _ ++ (_ ++ []) = _
      rw [List.append_nil]
  have hcapital : T.lowerChar xs.reverse 0x3A3 [] = [0x3C2] := by
    rw [CaseTables.lowerChar, if_pos rfl, hcased]
    rfl
  have hfinal : T.lowerChar xs.reverse 0x3C2 [] = [0x3C2] := by
    rw [CaseTables.lowerChar, if_neg (by decide), if_neg (by decide), (T.finalSigma 0x3C2).mpr rfl]
  have hwhole : T.lower us =
      T.lowerIn [] xs (c :: ys) ++ (T.lowerChar xs.reverse c ys ++ T.lowerIn (c :: xs.reverse) ys []) := by
    rw [hsplit, CaseTables.lower_split]
  have hmatches : ∀ d, IsSigma d → FirstMatch 1 2 (us.map (foldUnit T 2)) ((xs ++ [d]).map (foldUnit T 2))
      (searchAddress 1 2 (T.lowerIn [] xs (c :: ys) ++ T.lowerChar xs.reverse d []) (T.lower us)) := by
    intro d hd
    obtain ⟨hvalid, hdself, hdlower⟩ := hneedle d hd
    have hmatch := (h.matches hus hvalid).2
    rwa [hself, hdself, hdlower] at hmatch
  have hfold : ∀ d, IsSigma d → foldUnit T 2 d = [T.toLower d] := by
    intro d hd
    apply foldUnit_wide
    rintro rfl
    rcases hd with hd | hd | hd <;> cases hd
  have hplace : ∀ d, (xs ++ [d]).map (foldUnit T 2) <+: (us.map (foldUnit T 2)).drop 0 ↔ foldUnit T 2 d = foldUnit T 2 c := by
    intro d
    rw [List.drop_zero, hsplit, List.map_append, List.map_append, List.prefix_append_right_inj, List.map_cons,
      List.map_cons, List.cons_prefix_cons]
    simp
  have hfirst : ∀ ns : List (List Nat), ∀ j < 0, ¬ns <+: (us.map (foldUnit T 2)).drop j :=
    fun _ j hj => absurd hj (Nat.not_lt_zero j)
  have hbelow : T.lowerChar xs.reverse c ys = [0x3C2] ∨ T.lowerChar xs.reverse c ys = [0x3C3] ∧ T.toLower c = 0x3C3 := by
    rw [CaseTables.lowerChar]
    split
    next hcap =>
      rw [hcap, T.capitalSigma]
      split
      next => exact Or.inl rfl
      next => exact Or.inr ⟨rfl, rfl⟩
    next hcap =>
      rcases hc with rfl | rfl | rfl
      · exact absurd rfl hcap
      · rw [if_neg (by decide), T.smallSigma]
        exact Or.inr ⟨rfl, rfl⟩
      · rw [if_neg (by decide), (T.finalSigma 0x3C2).mpr rfl]
        exact Or.inl rfl
  rcases hbelow with hc2 | ⟨hc3, hlowc⟩
  · -- the text has the final form there: the capital and the final needle are both found at its start
    have hfind : findText (T.lowerIn [] xs (c :: ys) ++ [0x3C2]) (T.lower us) = some 0 := by
      apply findText_eq
      · rw [List.drop_zero, hwhole, hc2]
        exact ⟨T.lowerIn (c :: xs.reverse) ys [], by simp⟩
      · exact fun j hj => absurd hj (Nat.not_lt_zero j)
    have hone := hmatches 0x3A3 (Or.inl rfl)
    have htwo := hmatches 0x3C2 (Or.inr (Or.inr rfl))
    rw [hcapital] at hone
    rw [hfinal] at htwo
    have hat := (hplace 0x3A3).mp (hone.of_found Nat.one_pos (by decide) (by simp) hfind)
    have hat' := (hplace 0x3C2).mp (htwo.of_found Nat.one_pos (by decide) (by simp) hfind)
    have hsame := hat.trans hat'.symm
    rw [hfold _ (Or.inl rfl), hfold _ (Or.inr (Or.inr rfl)), T.capitalSigma, (T.finalSigma 0x3C2).mpr rfl] at hsame
    cases hsame
  · -- the text has the other small form there: the capital needle stands at its start and is not found there
    have hone := hmatches 0x3A3 (Or.inl rfl)
    rw [hcapital] at hone
    have hat : foldUnit T 2 0x3A3 = foldUnit T 2 c := by
      rw [hfold _ (Or.inl rfl), hfold _ hc, T.capitalSigma, hlowc]
    have hfind := hone.found_of Nat.one_pos (by decide) (by simp) ((hplace 0x3A3).mpr hat) (hfirst _)
    have htext := (findText_some hfind).1
    rw [List.drop_zero, hwhole, hc3, List.prefix_append_right_inj, List.cons_append, List.cons_prefix_cons] at htext
    cases htext.1

end Necessary

/-- The searches in a NUL-terminated text of bytes are right for every needle. Those in UTF-16 text are right for every
needle exactly when each of its units is one character with one lower case, whatever stands around it. -/
theorem stringSearch_law (T : CaseTables) {cw : Nat} (hcw : cw = 1 ∨ cw = 2) {us : List Nat}
    (hus : ∀ u ∈ us, 0 < u ∧ u < 256 ^ cw) : SearchesRight T cw us ↔ cw = 1 ∨ UnitWise T us := by
  rcases hcw with rfl | rfl
  · exact iff_of_true (searchesRight_ansi T hus) (Or.inl rfl)
  · constructor
    · intro h
      exact Or.inr ⟨fun u hu => ⟨h.no_surrogate hus u hu, fun heq => h.no_replacement hus (heq ▸ hu)⟩,
        h.no_dotted hus, h.no_sigma hus⟩
    · rintro (hone | h)
      · cases hone
      · exact h.searchesRight fun u hu => (hus u hu).2

def greekLower (c : Nat) : Nat := if 0x41 ≤ c ∧ c ≤ 0x5A then c + 0x20 else if c = 0x3A3 then 0x3C3 else c

def greekCased (c : Nat) : Bool :=
  (0x41 ≤ c && c ≤ 0x5A) || (0x61 ≤ c && c ≤ 0x7A) || c == 0x3A3 || c == 0x3C3 || c == 0x3C2

def greekIgnorable (c : Nat) : Bool := c == 0x27 || c == 0x2E || c == 0x3A || c == 0x307

theorem greekLower_cases (c : Nat) :
    (0x41 ≤ c ∧ c ≤ 0x5A ∧ greekLower c = c + 0x20) ∨ (c = 0x3A3 ∧ greekLower c = 0x3C3) ∨
      (¬(0x41 ≤ c ∧ c ≤ 0x5A) ∧ c ≠ 0x3A3 ∧ greekLower c = c) := by
  unfold greekLower
  split
  next h => exact Or.inl ⟨h.1, h.2, rfl⟩
  next h =>
    split
    next hc => exact Or.inr (Or.inl ⟨hc, rfl⟩)
    next hc => exact Or.inr (Or.inr ⟨h, hc, rfl⟩)

theorem greekLower_surrogate (c : Nat) : isSurrogate (greekLower c) = isSurrogate c := by
  have hcases := greekLower_cases c
  rw [Bool.eq_iff_iff]
  simp only [isSurrogate, Bool.and_eq_true, decide_eq_true_eq]
  omega

theorem greekLower_cased (c : Nat) : greekCased (greekLower c) = greekCased c := by
  have hcases := greekLower_cases c
  rw [Bool.eq_iff_iff]
  simp only [greekCased, Bool.or_eq_true, Bool.and_eq_true, decide_eq_true_eq, beq_iff_eq]
  omega

theorem greekLower_ignorable (c : Nat) : greekIgnorable (greekLower c) = greekIgnorable c := by
  have hcases := greekLower_cases c
  rw [Bool.eq_iff_iff]
  simp only [greekIgnorable, Bool.or_eq_true, beq_iff_eq]
  omega

theorem greekLower_eq_iff {d : Nat} (hd : d ≠ 0x3C3 ∧ ¬(0x41 ≤ d ∧ d ≤ 0x5A) ∧ ¬(0x61 ≤ d ∧ d ≤ 0x7A) ∧ d ≠ 0x3A3) (c : Nat) :
    greekLower c = d ↔ c = d := by
  have hcases := greekLower_cases c
  omega

theorem greekLower_replacement (c : Nat) : greekLower c = 0xFFFD ↔ c = 0xFFFD := greekLower_eq_iff (by omega) c

theorem greekLower_dotAbove (c : Nat) : greekLower c = 0x307 ↔ c = 0x307 := greekLower_eq_iff (by omega) c

theorem greekLower_finalSigma (c : Nat) : greekLower c = 0x3C2 ↔ c = 0x3C2 := greekLower_eq_iff (by omega) c

theorem greekLower_sigma (c : Nat) : IsSigma (greekLower c) ↔ IsSigma c := by
  have hcases := greekLower_cases c
  unfold IsSigma
  omega

theorem greekLower_plane (c : Nat) : greekLower c < 0x10000 ↔ c < 0x10000 := by
  have hcases := greekLower_cases c
  omega

theorem greekSigma_kind (c : Nat) (h : IsSigma c) : greekCased c = true ∧ greekIgnorable c = false := by
  rcases h with rfl | rfl | rfl
  · exact ⟨rfl, rfl⟩
  · exact ⟨rfl, rfl⟩
  · exact ⟨rfl, rfl⟩

/-- The tables for ASCII letters, the sigmas and the dot above. -/
def greekTables : CaseTables where
  toLower := greekLower
  cased := greekCased
  ignorable := greekIgnorable
  plane := greekLower_plane
  surrogate := greekLower_surrogate
  replacement := greekLower_replacement
  lowerI := rfl
  dotAbove := greekLower_dotAbove
  capitalSigma := rfl
  smallSigma := rfl
  sigma := greekLower_sigma
  finalSigma := greekLower_finalSigma
  cased_toLower := greekLower_cased
  ignorable_toLower := greekLower_ignorable
  sigmaKind := greekSigma_kind

theorem stringSearch_law_ansi : SearchesRight greekTables 1 [0x43, 0x3A, 0x5C, 0x61, 0x2E, 0x62] ↔
    (1 = 1 ∨ UnitWise greekTables [0x43, 0x3A, 0x5C, 0x61, 0x2E, 0x62]) :=
  stringSearch_law greekTables (Or.inl rfl) (by decide)

/-- A character of two units and a letter at 0x1000, and the letter alone at 0x2000. -/
def pairMemory : ByteMemory := fun a =>
  match a with
  | 0x1000 => 0x3D
  | 0x1001 => 0xD8
  | 0x1002 => 0x00
  | 0x1003 => 0xDE
  | 0x1004 => 0x61
  | 0x2000 => 0x61
  | _ => 0

/-- `StrStrW` returns the address of the second half of the pair for the letter behind it. -/
theorem strStr_pair : pairMemory.HoldsString 2 0x1000 [0xD83D, 0xDE00, 0x61] ∧ pairMemory.HoldsString 2 0x2000 [0x61] ∧
    pairMemory.strStr 8 2 0x1000 0x2000 = some 0x1002 ∧ pairMemory.readInt 0x1002 2 = 0xDE00 :=
  ⟨⟨by unfold Holds; decide, by decide⟩, ⟨by unfold Holds; decide, by decide⟩, by decide, by decide⟩

end Speakeasy
