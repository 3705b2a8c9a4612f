import Speakeasy.RegistryPaths
import Mathlib.Data.List.Basic

namespace Speakeasy

/-- `str.lower`, where the one character with a longer lower case keeps one that is not ASCII. -/
structure DottedLowerCase extends LowerCase where
  dotted : ∀ s, '\u0130' ∈ s → ∃ c ∈ str s, 128 ≤ c.toNat

/-- A name of a part of the tree and the name that stands for it, both in lower case. -/
structure KeyAlias where
  name : PyStr
  canonical : PyStr

def nativeRoot : KeyAlias := ⟨"\\registry\\machine".toList, "hkey_local_machine".toList⟩

def shortRoot : KeyAlias := ⟨"hklm".toList, "hkey_local_machine".toList⟩

def firstControlSet : KeyAlias :=
  ⟨"hkey_local_machine\\system\\controlset001".toList,
    "hkey_local_machine\\system\\currentcontrolset".toList⟩

/-- The aliases in the order in which a path loses them. -/
def keyAliases : List KeyAlias := [nativeRoot, shortRoot, firstControlSet]

def KeyAlias.replaceComponents (a : KeyAlias) (comps : List PyStr) : List PyStr :=
  if a.name.splitOn '\\' <+: comps then
    a.canonical.splitOn '\\' ++ comps.drop (a.name.splitOn '\\').length
  else comps

/-- The key that a path names: its components without case, aliases and trailing backslashes. -/
def keyComponents (lc : LowerCase) (path : PyStr) : List PyStr :=
  keyAliases.foldl (fun comps a => a.replaceComponents comps)
    ((lc.str (rstripSep path)).splitOn '\\')

def rootAliasNames : List PyStr := [nativeRoot.name, shortRoot.name]

def controlSetNames : List PyStr :=
  ["\\registry\\machine\\system\\controlset001".toList, "hklm\\system\\controlset001".toList,
    firstControlSet.name]

/-- The alias that a path is, from its first character to its last. -/
def bareAlias (lc : LowerCase) (path : PyStr) : Option PyStr :=
  if lc.str path ∈ rootAliasNames then some (lc.str path)
  else if lc.str path ∈ controlSetNames then some firstControlSet.name
  else none

/-- What two paths of the registry owe to each other. -/
structure RegPathLaw (lc : LowerCase) (s t : PyStr) : Prop where
  idem : normalizeRegPath lc (normalizeRegPath lc s) = normalizeRegPath lc s
  same : lc.str (rstripSep s) = lc.str (rstripSep t) → SamePath lc s t
  spelling : keyComponents lc s = keyComponents lc t → SamePath lc s t

theorem rstripSep_seps (s : PyStr) (n : Nat) :
    rstripSep (s ++ List.replicate n '\\') = rstripSep s := by
  induction n with
  | zero => simp
  | succ n ih =>
    rw [List.replicate_succ', ← List.append_assoc]
    unfold rstripSep at ih ⊢
    rw [List.rdropWhile_concat_pos _ _ _ (by simp), ih]

theorem lower_rstripSep (lc : LowerCase) (s : PyStr) :
    lc.str (rstripSep s) = rstripSep (lc.str s) := by
  obtain ⟨n, hn⟩ := rstripSep_append s
  have hidem : rstripSep (rstripSep s) = rstripSep s := List.rdropWhile_idempotent ..
  have hlow := lc.seps (rstripSep s) n
  rw [← hn] at hlow
  rw [hlow, rstripSep_seps, rstripSep_lower hidem]

theorem splitOn_sep (s t : PyStr) :
    (s ++ '\\' :: t).splitOn '\\' = s.splitOn '\\' ++ t.splitOn '\\' := by
  simp only [List.splitOn_eq_splitOnP]
  exact List.splitOnP_append_cons s t (by simp)

theorem splitOn_inj {s t : PyStr} (h : s.splitOn '\\' = t.splitOn '\\') : s = t := by
  have hs : ['\\'].intercalate (s.splitOn '\\') = s := List.intercalate_splitOn _
  rw [h, List.intercalate_splitOn] at hs
  exact hs.symm

theorem intercalate_append {xs ys : List PyStr} (hx : xs ≠ []) (hy : ys ≠ []) :
    ['\\'].intercalate (xs ++ ys) = ['\\'].intercalate xs ++ '\\' :: ['\\'].intercalate ys := by
  induction xs with
  | nil => exact absurd rfl hx
  | cons x xs ih =>
    cases xs with
    | nil =>
      obtain ⟨y, ys, rfl⟩ := List.exists_cons_of_ne_nil hy
      simp [List.intercalate]
    | cons x' xs =>
      have := ih (by simp)
      simp_all [List.intercalate]

theorem splitOn_le_iff {a q : PyStr} :
    a.splitOn '\\' <+: q.splitOn '\\' ↔ q = a ∨ ∃ t, q = a ++ '\\' :: t := by
  constructor
  · intro h
    obtain ⟨rest, hrest⟩ := h
    have hq : ['\\'].intercalate (q.splitOn '\\') = q := List.intercalate_splitOn _
    rw [← hrest] at hq
    by_cases hnil : rest = []
    · rw [hnil, List.append_nil, List.intercalate_splitOn] at hq
      exact Or.inl hq.symm
    · rw [intercalate_append (by simp) hnil, List.intercalate_splitOn] at hq
      exact Or.inr ⟨_, hq.symm⟩
  · intro h
    rcases h with rfl | ⟨t, rfl⟩
    · exact List.prefix_refl _
    · rw [splitOn_sep]
      exact List.prefix_append ..

namespace KeyAlias

variable (a : KeyAlias)

/-- One replacement of the source, on a path in lower case. -/
def replace (path : PyStr) : PyStr :=
  if a.name ++ ['\\'] <+: path then a.canonical ++ '\\' :: path.drop (a.name.length + 1) else path

/-- What a replacement does to a path before its trailing backslashes. -/
def rename (path : PyStr) : PyStr :=
  if path = a.name then a.canonical
  else if a.name ++ ['\\'] <+: path then a.canonical ++ path.drop a.name.length
  else path

theorem rename_splitOn (q : PyStr) :
    (a.rename q).splitOn '\\' = a.replaceComponents (q.splitOn '\\') := by
  unfold rename replaceComponents
  split
  next h => simp [h]
  next h =>
    split
    next hp =>
      obtain ⟨t, rfl⟩ := hp
      rw [if_pos (splitOn_le_iff.mpr (Or.inr ⟨t, by simp⟩))]
      simp only [List.append_assoc, List.singleton_append, List.drop_left, splitOn_sep]
    next hp =>
      rw [if_neg]
      intro hle
      rcases splitOn_le_iff.mp hle with heq | ⟨t, rfl⟩
      · exact h heq
      · exact hp ⟨t, by simp⟩

theorem rename_eq {q x : PyStr} (h : a.rename q = x) :
    (q = a.name ∧ x = a.canonical) ∨
      (∃ t, q = a.name ++ '\\' :: t ∧ x = a.canonical ++ '\\' :: t) ∨ q = x := by
  unfold rename at h
  split at h
  next hq => exact Or.inl ⟨hq, h.symm⟩
  next =>
    split at h
    next hp =>
      obtain ⟨t, rfl⟩ := hp
      exact Or.inr (Or.inl ⟨t, by simp, by simpa using h.symm⟩)
    next => exact Or.inr (Or.inr h)

theorem rename_stripped {q : PyStr} (hc : rstripSep a.canonical = a.canonical)
    (hq : rstripSep q = q) : rstripSep (a.rename q) = a.rename q := by
  unfold rename
  split
  next => exact hc
  next =>
    split
    next hp =>
      obtain ⟨t, rfl⟩ := hp
      simp only [List.append_assoc, List.singleton_append, List.drop_left] at hq ⊢
      refine List.rdropWhile_eq_self_iff.mpr fun hne hlast => ?_
      refine List.rdropWhile_eq_self_iff.mp hq (by simp) ?_
      rw [List.getLast_append_of_ne_nil _ (by simp)] at hlast ⊢
      exact hlast
    next => exact hq

theorem replace_seps {q : PyStr} {n : Nat} (ha : rstripSep a.name = a.name)
    (hq : rstripSep q = q) (h : q = a.name → 0 < n) :
    a.replace (q ++ List.replicate n '\\') = a.rename q ++ List.replicate n '\\' := by
  unfold replace rename
  by_cases hname : q = a.name
  · obtain ⟨m, rfl⟩ := Nat.exists_eq_succ_of_ne_zero (Nat.pos_iff_ne_zero.mp (h hname))
    subst hname
    rw [if_pos rfl, List.replicate_succ, if_pos ⟨List.replicate m '\\', by simp⟩]
    simp
  · rw [if_neg hname]
    by_cases hp : a.name ++ ['\\'] <+: q
    · rw [if_pos hp, if_pos (hp.trans (List.prefix_append ..))]
      obtain ⟨t, rfl⟩ := hp
      simp
    · rw [if_neg hp, if_neg]
      intro hin
      apply hp
      -- The prefix cannot end among the trailing backslashes: the path before them is stripped.
      rcases List.prefix_or_prefix_of_prefix hin (List.prefix_append q _) with hle | ⟨c, hc⟩
      · exact hle
      · obtain ⟨rest, hrest⟩ := hin
        rw [← hc, List.append_assoc, List.append_cancel_left_eq] at hrest
        have hseps := (List.append_eq_replicate_iff.mp hrest).2.1
        have hstrip := rstripSep_seps q c.length
        rw [← hseps, hc] at hstrip
        have hend : rstripSep (a.name ++ ['\\']) = a.name := (rstripSep_seps a.name 1).trans ha
        exact absurd (hq.symm.trans (hstrip.symm.trans hend)) hname

end KeyAlias

def replaceAliases (path : PyStr) : PyStr := keyAliases.foldl (fun path a => a.replace path) path

def renameAliases (path : PyStr) : PyStr := keyAliases.foldl (fun path a => a.rename path) path

theorem renameAliases_splitOn (q : PyStr) : (renameAliases q).splitOn '\\' =
    keyAliases.foldl (fun comps a => a.replaceComponents comps) (q.splitOn '\\') := by
  simp only [renameAliases, keyAliases, List.foldl_cons, List.foldl_nil, KeyAlias.rename_splitOn]

/-- The names of an alias are in lower case and end in no backslash. -/
structure KeyAlias.Plain (a : KeyAlias) : Prop where
  ascii : ∀ c ∈ a.name, c.toNat < 128
  lower : a.name.map Char.toLower = a.name
  name : rstripSep a.name = a.name
  canonical : rstripSep a.canonical = a.canonical

theorem keyAliases_plain {a : KeyAlias} (ha : a ∈ keyAliases) : a.Plain := by
  have hall : ∀ a ∈ keyAliases, (a.name.all fun c => decide (c.toNat < 128)) = true ∧
      a.name.map Char.toLower = a.name ∧ rstripSep a.name = a.name ∧
      rstripSep a.canonical = a.canonical := by decide
  obtain ⟨hascii, hlower, hname, hcanonical⟩ := hall a ha
  exact ⟨forall_lt_of_all hascii, hlower, hname, hcanonical⟩

/-- The texts of the aliases, part by part. -/
theorem alias_texts :
    shortRoot.name = ['h', 'k', 'l', 'm'] ∧
      "hkey_local_machine".toList = 'h' :: 'k' :: 'e' :: "y_local_machine".toList ∧
      firstControlSet.name = "hkey_local_machine".toList ++ '\\' :: "system\\controlset001".toList ∧
      nativeRoot.name ++ '\\' :: "system\\controlset001".toList ∈ controlSetNames ∧
      shortRoot.name ++ '\\' :: "system\\controlset001".toList ∈ controlSetNames ∧
      rootPrefixes = [nativeRoot.name ++ ['\\'], shortRoot.name ++ ['\\']] ∧
      controlSetPrefix = firstControlSet.name ++ ['\\'] ∧
      "hkey_local_machine\\system\\currentcontrolset\\".toList =
        firstControlSet.canonical ++ ['\\'] := by
  decide

theorem short_ne_canonical (s t : PyStr) :
    shortRoot.name ++ s ≠ "hkey_local_machine".toList ++ t := by
  intro h
  obtain ⟨hname, hcanonical, _⟩ := alias_texts
  rw [hname, hcanonical] at h
  simp at h

theorem canonical_ne_controlSet : "hkey_local_machine".toList ≠ firstControlSet.name := by
  intro h
  rw [alias_texts.2.2.1] at h
  exact List.cons_ne_nil _ _ (List.self_eq_append_right.mp h)

theorem rename_native_short {q : PyStr} (h : nativeRoot.rename q = shortRoot.name) :
    q ∈ rootAliasNames := by
  have hcases := nativeRoot.rename_eq h
  rcases hcases with hname | hrest | hq
  · have happend : shortRoot.name ++ [] = "hkey_local_machine".toList ++ [] := by
      rw [List.append_nil, List.append_nil]
      exact hname.2
    exact absurd happend (short_ne_canonical [] [])
  · obtain ⟨t, ht⟩ := hrest
    exact absurd ((List.append_nil _).trans ht.2) (short_ne_canonical [] _)
  · simp [rootAliasNames, hq]

theorem firstControlSet_rest {t : PyStr}
    (h : firstControlSet.name = "hkey_local_machine".toList ++ '\\' :: t) :
    t = "system\\controlset001".toList := by
  rw [alias_texts.2.2.1, List.append_cancel_left_eq] at h
  exact (List.cons.inj h).2.symm

theorem rename_roots_controlSet {q : PyStr}
    (h : shortRoot.rename (nativeRoot.rename q) = firstControlSet.name) : q ∈ controlSetNames := by
  obtain ⟨_, _, _, hnative, hshort, _⟩ := alias_texts
  have hcases := shortRoot.rename_eq h
  rcases hcases with hname | hrest | hsame
  · exact absurd hname.2.symm canonical_ne_controlSet
  · obtain ⟨t, hq, ht⟩ := hrest
    rw [firstControlSet_rest ht] at hq
    have hcases := nativeRoot.rename_eq hq
    rcases hcases with hname | hrest | hq
    · exact absurd (hname.2.trans (List.append_nil _).symm) (short_ne_canonical _ [])
    · obtain ⟨u, hu⟩ := hrest
      exact absurd hu.2 (short_ne_canonical _ _)
    · rw [hq]
      exact hshort
  · have hcases := nativeRoot.rename_eq hsame
    rcases hcases with hname | hrest | hq
    · exact absurd hname.2.symm canonical_ne_controlSet
    · obtain ⟨t, hq, ht⟩ := hrest
      rw [hq, firstControlSet_rest ht]
      exact hnative
    · simp [controlSetNames, hq]

/-- A path that is no alias on its own is renamed whatever backslashes follow it. -/
theorem replaceAliases_seps {q : PyStr} {n : Nat} (hq : rstripSep q = q)
    (hroot : q ∈ rootAliasNames → 0 < n) (hset : q ∈ controlSetNames → 0 < n) :
    replaceAliases (q ++ List.replicate n '\\') = renameAliases q ++ List.replicate n '\\' := by
  have hnative := keyAliases_plain (a := nativeRoot) (by simp [keyAliases])
  have hshort := keyAliases_plain (a := shortRoot) (by simp [keyAliases])
  have hfirst := keyAliases_plain (a := firstControlSet) (by simp [keyAliases])
  simp only [replaceAliases, renameAliases, keyAliases, List.foldl_cons, List.foldl_nil]
  have h1 := nativeRoot.replace_seps (n := n) hnative.name hq (fun h => hroot (by simp [h, rootAliasNames]))
  rw [h1]
  have hq1 := nativeRoot.rename_stripped hnative.canonical hq
  have h2 := shortRoot.replace_seps (n := n) hshort.name hq1
    (fun h => hroot (rename_native_short h))
  rw [h2]
  have hq2 := shortRoot.rename_stripped hshort.canonical hq1
  exact firstControlSet.replace_seps hfirst.name hq2 (fun h => hset (rename_roots_controlSet h))

variable {lc : DottedLowerCase}

theorem DottedLowerCase.not_dotted (lc : DottedLowerCase) {s : PyStr}
    (h : ∀ c ∈ lc.str s, c.toNat < 128) : '\u0130' ∉ s := by
  intro hin
  obtain ⟨c, hc, hge⟩ := lc.dotted s hin
  have := h c hc
  omega

/-- A path whose lower case begins with an alias begins with as many characters of its own. -/
theorem DottedLowerCase.split (lc : DottedLowerCase) {a path w : PyStr}
    (ha : ∀ c ∈ a, c.toNat < 128) (hl : a.map Char.toLower = a)
    (h : lc.str path = a ++ '\\' :: w) :
    ∃ u v, path = u ++ '\\' :: v ∧ u.length = a.length ∧ lc.str v = w := by
  induction hn : a.length using Nat.strong_induction_on generalizing a path with
  | _ n ih =>
    by_cases hsep : '\\' ∈ a
    · obtain ⟨p, a', rfl, hp⟩ := List.eq_append_cons_of_mem hsep
      rw [List.map_append, List.map_cons] at hl
      obtain ⟨hlp, hla⟩ := List.append_inj hl (List.length_map ..)
      have hlow : lc.str p = p :=
        (lc.ascii p fun c hc => ha c (List.mem_append_left _ hc)).trans hlp
      rw [List.append_assoc, List.cons_append] at h
      obtain ⟨x, y, rfl, hx, hy⟩ := lc.first (w := a' ++ '\\' :: w) hp (by rw [h, hlow])
      rw [hlow] at hx
      have hdot : '\u0130' ∉ x :=
        lc.not_dotted (by rw [hx]; exact fun c hc => ha c (List.mem_append_left _ hc))
      simp only [List.length_append, List.length_cons] at hn
      obtain ⟨u, v, rfl, hlen, hv⟩ := ih a'.length (by omega)
        (fun c hc => ha c (by simp [hc])) (List.cons.inj hla).2 hy rfl
      have hxlen : x.length = p.length := by rw [← lc.length x hdot, hx]
      refine ⟨x ++ '\\' :: u, v, by simp, ?_, hv⟩
      simp only [List.length_append, List.length_cons]
      omega
    · have hlow : lc.str a = a := (lc.ascii a ha).trans hl
      obtain ⟨u, v, rfl, hu, hv⟩ := lc.first (w := w) hsep (by rw [h, hlow])
      rw [hlow] at hu
      have hdot : '\u0130' ∉ u := lc.not_dotted (by rw [hu]; exact ha)
      refine ⟨u, v, rfl, ?_, hv⟩
      rw [← lc.length u hdot, hu, hn]

/-- A replacement of the source is the one of its alias, on the path in lower case. -/
theorem lower_replace (lc : DottedLowerCase) {a : KeyAlias} (ha : a.Plain) {canonical : PyStr}
    (path : PyStr) (hc : ∀ t, lc.str (canonical ++ t) = a.canonical ++ '\\' :: lc.str t) :
    lc.str (if a.name ++ ['\\'] <+: lc.str path then canonical ++ path.drop (a.name.length + 1)
      else path) = a.replace (lc.str path) := by
  unfold KeyAlias.replace
  split
  next hp =>
    obtain ⟨w, hw⟩ := hp
    rw [List.append_assoc, List.singleton_append] at hw
    obtain ⟨u, v, rfl, hlen, hv⟩ := lc.split ha.ascii ha.lower hw.symm
    have hdrop : ∀ {x y : PyStr}, (x ++ '\\' :: y).drop (x.length + 1) = y := by
      intro x y
      simp
    rw [← hw, hc, hdrop, ← hlen, hdrop, hv]
  next => rfl

theorem replaceRoot_eq (lc : LowerCase) (path : PyStr) : replaceRoot lc path =
    if nativeRoot.name ++ ['\\'] <+: lc.str path then
      localMachinePrefix ++ path.drop (nativeRoot.name.length + 1)
    else if shortRoot.name ++ ['\\'] <+: lc.str path then
      localMachinePrefix ++ path.drop (shortRoot.name.length + 1)
    else path := by
  unfold replaceRoot
  rw [alias_texts.2.2.2.2.2.1, List.find?_cons, List.find?_cons]
  by_cases hnative : nativeRoot.name ++ ['\\'] <+: lc.str path
  · simp [hnative]
  · by_cases hshort : shortRoot.name ++ ['\\'] <+: lc.str path
    · simp [hnative, hshort]
    · simp [hnative, hshort]

theorem lower_replaceRoot (lc : DottedLowerCase) (path : PyStr) :
    lc.str (replaceRoot lc.toLowerCase path) =
      shortRoot.replace (nativeRoot.replace (lc.str path)) := by
  have hcanonical : ∀ t, lc.str (localMachinePrefix ++ t) =
      "hkey_local_machine".toList ++ '\\' :: lc.str t := by
    intro t
    rw [lower_localMachinePrefix]
    simp
  have hnative := lower_replace lc (keyAliases_plain (a := nativeRoot) (by simp [keyAliases])) path
    hcanonical
  have hshort := lower_replace lc (keyAliases_plain (a := shortRoot) (by simp [keyAliases])) path
    hcanonical
  rw [replaceRoot_eq]
  by_cases hp : nativeRoot.name ++ ['\\'] <+: lc.str path
  · rw [if_pos hp] at hnative ⊢
    rw [← hnative, hcanonical]
    unfold KeyAlias.replace
    rw [if_neg]
    intro hle
    obtain ⟨w, hw⟩ := hle
    rw [List.append_assoc] at hw
    exact short_ne_canonical _ _ hw
  · have hsame : nativeRoot.replace (lc.str path) = lc.str path := if_neg hp
    rw [if_neg hp, hsame]
    exact hshort

theorem lower_normalize (lc : DottedLowerCase) (path : PyStr) :
    lc.str (normalizeRegPath lc.toLowerCase path) = rstripSep (replaceAliases (lc.str path)) := by
  obtain ⟨_, _, _, _, _, _, hcontrol, hcurrent⟩ := alias_texts
  have hcanonical : ∀ t, lc.str (currentControlSetPrefix ++ t) =
      firstControlSet.canonical ++ '\\' :: lc.str t := by
    intro t
    rw [lower_currentControlSetPrefix, hcurrent, List.append_assoc, List.singleton_append]
  have hset : lc.str (replaceControlSet lc.toLowerCase (replaceRoot lc.toLowerCase path)) =
      firstControlSet.replace (lc.str (replaceRoot lc.toLowerCase path)) := by
    unfold replaceControlSet
    rw [hcontrol]
    exact lower_replace lc (keyAliases_plain (by simp [keyAliases])) _ hcanonical
  by_cases hnil : path = []
  · subst hnil
    rw [show normalizeRegPath lc.toLowerCase [] = [] from rfl, lc.nil]
    rfl
  · simp only [normalizeRegPath, if_neg hnil, replaceAliases, keyAliases, List.foldl_cons,
      List.foldl_nil]
    rw [lower_rstripSep, ← lower_replaceRoot, ← hset]

theorem renameAliases_stripped {q : PyStr} (hq : rstripSep q = q) :
    rstripSep (renameAliases q) = renameAliases q := by
  have hstep : ∀ (as : List KeyAlias), (∀ a ∈ as, rstripSep a.canonical = a.canonical) →
      ∀ {q : PyStr}, rstripSep q = q →
        rstripSep (as.foldl (fun path a => a.rename path) q) =
          as.foldl (fun path a => a.rename path) q := by
    intro as
    induction as with
    | nil => exact fun _ _ hq => hq
    | cons a as ih =>
      intro has q hq
      exact ih (fun b hb => has b (List.mem_cons_of_mem _ hb))
        (a.rename_stripped (has a List.mem_cons_self) hq)
  exact hstep keyAliases (fun a ha => (keyAliases_plain ha).canonical) hq

theorem keyComponents_eq (lc : LowerCase) (path : PyStr) :
    keyComponents lc path = (renameAliases (rstripSep (lc.str path))).splitOn '\\' := by
  rw [renameAliases_splitOn, ← lower_rstripSep]
  rfl

theorem normalize_named {path : PyStr} (h : bareAlias lc.toLowerCase path = none) :
    (lc.str (normalizeRegPath lc.toLowerCase path)).splitOn '\\' =
      keyComponents lc.toLowerCase path := by
  obtain ⟨n, hn⟩ := rstripSep_append (lc.str path)
  have hq : rstripSep (rstripSep (lc.str path)) = rstripSep (lc.str path) :=
    List.rdropWhile_idempotent ..
  unfold bareAlias at h
  split at h
  next => simp at h
  next hroot =>
    split at h
    next => simp at h
    next hset =>
      have hpos : ∀ {names : List PyStr}, lc.str path ∉ names →
          rstripSep (lc.str path) ∈ names → 0 < n := by
        intro names hnot hin
        by_contra hzero
        obtain rfl : n = 0 := by omega
        rw [hn, List.replicate_zero, List.append_nil] at hnot
        exact hnot hin
      have hseps := replaceAliases_seps hq (hpos hroot) (hpos hset)
      rw [← hn] at hseps
      rw [lower_normalize, hseps, rstripSep_seps, renameAliases_stripped hq, keyComponents_eq]

/-- A bare alias keeps its own name, and the key that it names has another one. -/
theorem normalize_bare {path x : PyStr} (h : bareAlias lc.toLowerCase path = some x) :
    lc.str (normalizeRegPath lc.toLowerCase path) = x ∧
      keyComponents lc.toLowerCase path ≠ x.splitOn '\\' := by
  have hroots : ∀ name ∈ rootAliasNames,
      rstripSep (replaceAliases name) = name ∧ renameAliases (rstripSep name) ≠ name := by
    decide
  have hsets : ∀ name ∈ controlSetNames,
      rstripSep (replaceAliases name) = firstControlSet.name ∧
        renameAliases (rstripSep name) ≠ firstControlSet.name := by
    decide
  rw [lower_normalize, keyComponents_eq]
  unfold bareAlias at h
  split at h
  next hin =>
    obtain rfl := Option.some.inj h
    exact ⟨(hroots _ hin).1, fun heq => (hroots _ hin).2 (splitOn_inj heq)⟩
  next =>
    split at h
    next hin =>
      obtain rfl := Option.some.inj h
      exact ⟨(hsets _ hin).1, fun heq => (hsets _ hin).2 (splitOn_inj heq)⟩
    next => simp at h

theorem samePath_iff {s t : PyStr}
    (h : keyComponents lc.toLowerCase s = keyComponents lc.toLowerCase t) :
    SamePath lc.toLowerCase s t ↔ bareAlias lc.toLowerCase s = bareAlias lc.toLowerCase t := by
  unfold SamePath
  cases hs : bareAlias lc.toLowerCase s with
  | none =>
    cases ht : bareAlias lc.toLowerCase t with
    | none =>
      refine iff_of_true (splitOn_inj ?_) rfl
      rw [normalize_named hs, normalize_named ht, h]
    | some y =>
      have hy := normalize_bare ht
      refine iff_of_false (fun heq => hy.2 ?_) (by simp)
      rw [← hy.1, ← heq, normalize_named hs, h]
  | some x =>
    have hx := normalize_bare hs
    cases ht : bareAlias lc.toLowerCase t with
    | none =>
      refine iff_of_false (fun heq => hx.2 ?_) (by simp)
      rw [← hx.1, heq, normalize_named ht, h]
    | some y => rw [hx.1, (normalize_bare ht).1, Option.some.injEq]

/-- Two spellings of a key give one path unless one of them is an alias in full, with no backslash
after it, and the other one is not. -/
theorem normalize_regPathLaw_iff (lc : DottedLowerCase) (s t : PyStr) :
    RegPathLaw lc.toLowerCase s t ↔
      (keyComponents lc.toLowerCase s = keyComponents lc.toLowerCase t →
        bareAlias lc.toLowerCase s = bareAlias lc.toLowerCase t) := by
  constructor
  · intro hlaw hkey
    exact (samePath_iff hkey).mp (hlaw.spelling hkey)
  · intro hbare
    refine ⟨normalizeRegPath_idem _ s, fun hsame => ?_,
      fun hkey => (samePath_iff hkey).mpr (hbare hkey)⟩
    have hkey : keyComponents lc.toLowerCase s = keyComponents lc.toLowerCase t := by
      rw [keyComponents, hsame, keyComponents]
    exact (samePath_iff hkey).mpr (hbare hkey)

theorem asciiLower_dotted : ∀ s : PyStr, '\u0130' ∈ s →
    ∃ c ∈ asciiLower.str s, 128 ≤ c.toNat := by
  intro s hs
  refine ⟨'\u0130', List.mem_map.mpr ⟨_, hs, by decide⟩, by decide⟩

def asciiDotted : DottedLowerCase := { asciiLower with dotted := asciiLower_dotted }

/-- `HKLM` and `HKLM\` are two paths. -/
theorem normalize_not_regPathLaw :
    ¬RegPathLaw asciiDotted.toLowerCase "HKLM".toList "HKLM\\".toList := by
  intro hlaw
  have hsame := hlaw.same (by decide)
  revert hsame
  unfold SamePath
  decide

end Speakeasy
