import Speakeasy.RegistryCalls

namespace Speakeasy

/-- `s.strip("\\")`. -/
def stripSep (path : PyStr) : PyStr := rstripSep (lstripSep path)

def leadingSeps (path : PyStr) : Nat := (path.takeWhile (· = '\\')).length

/-- The full path of a subkey, without the backslashes around the subkey. -/
def fullPath (key sub : PyStr) : PyStr := if sub = [] then key else key ++ '\\' :: stripSep sub

/-- The path that a call opens is the full path: one backslash comes before the subkey, and one after it
does not turn an alias in full into the key that it stands for. -/
def RegEntry.JoinsAs (lc : LowerCase) (key sub : PyStr) (e : RegEntry) : Prop :=
  stripSep sub = [] ∨
    (e = .regCreateKeyEx → key ≠ []) ∧ e.separators (leadingSeps sub) = 1 ∧
      (rstripSep sub = sub ∨ bareAlias lc (key ++ '\\' :: stripSep sub) = none)

theorem replicate_leadingSeps (sub : PyStr) :
    List.replicate (leadingSeps sub) '\\' ++ lstripSep sub = sub := by
  have hall : ∀ c ∈ sub.takeWhile (· = '\\'), c = '\\' := by
    intro c hc
    simpa using List.mem_takeWhile_imp hc
  rw [leadingSeps, ← List.eq_replicate_of_mem hall]
  exact List.takeWhile_append_dropWhile

theorem lstripSep_head {sub t : PyStr} : lstripSep sub ≠ '\\' :: t := by
  intro h
  have hhead := List.head?_dropWhile_not (fun c => decide (c = '\\')) sub
  rw [lstripSep] at h
  simp [h] at hhead

theorem rstripSep_stripSep (sub : PyStr) : rstripSep (stripSep sub) = stripSep sub :=
  List.rdropWhile_idempotent ..

theorem rstripSep_sep {x y : PyStr} (hy : y ≠ []) (h : rstripSep y = y) :
    rstripSep (x ++ '\\' :: y) = x ++ '\\' :: y := by
  refine List.rdropWhile_eq_self_iff.mpr fun hne hlast => ?_
  rw [List.getLast_append_of_ne_nil _ (by simp), List.getLast_cons hy] at hlast
  exact List.rdropWhile_eq_self_iff.mp h hy hlast

theorem startSep_eq (sub : PyStr) :
    startSep sub = List.replicate (max (leadingSeps sub) 1) '\\' ++ lstripSep sub := by
  unfold startSep leadingSeps lstripSep
  cases sub with
  | nil => rfl
  | cons c sub =>
    by_cases hc : c = '\\'
    · subst hc
      rw [if_pos (by simp)]
      have hmax : max ((sub.takeWhile (· = '\\')).length + 1) 1 = leadingSeps sub + 1 := by
        rw [leadingSeps]
        omega
      simp only [decide_true, List.takeWhile_cons_of_pos, List.dropWhile_cons_of_pos, List.length_cons]
      rw [hmax, List.replicate_succ, List.cons_append]
      exact congrArg _ (replicate_leadingSeps sub).symm
    · rw [if_neg (by simp [List.cons_prefix_cons, Ne.symm hc])]
      simp [hc]

/-- Where a call leaves the subkey in the path that it opens. -/
theorem joined_parts {key sub : PyStr} {e : RegEntry} (hsub : sub ≠ [])
    (hkey : e = .regCreateKeyEx → key ≠ []) : e.joined key sub =
      key ++ (List.replicate (e.separators (leadingSeps sub)) '\\' ++ lstripSep sub) := by
  cases e with
  | regOpenKeyEx =>
    rw [RegEntry.joined, if_pos hsub, startSep_eq]
    rfl
  | regCreateKey =>
    rw [RegEntry.joined, if_pos hsub]
    rfl
  | regCreateKeyEx =>
    rw [RegEntry.joined, RegistryManager.createPath, if_pos ⟨hkey rfl, hsub⟩, startSep_eq]
    rfl
  | regGetValue =>
    rw [RegEntry.joined, if_pos hsub, RegEntry.separators, List.replicate_succ, List.cons_append,
      replicate_leadingSeps]
  | zwCreateKey =>
    rw [RegEntry.joined, RegistryManager.rootedPath, if_pos hsub, RegEntry.separators,
      List.replicate_succ, List.cons_append, replicate_leadingSeps]

theorem separators_pos (e : RegEntry) (n : Nat) : 0 < e.separators n := by
  cases e <;> simp [RegEntry.separators]

section

/-- The number of the empty names of a path. -/
abbrev emptyNames (comps : List PyStr) : Nat := comps.count []

theorem splitOn_replicate (n : Nat) (t : PyStr) :
    (List.replicate n '\\' ++ t).splitOn '\\' = List.replicate n [] ++ t.splitOn '\\' := by
  induction n with
  | zero => rfl
  | succ n ih =>
    rw [List.replicate_succ, List.cons_append, List.replicate_succ, List.cons_append, ← ih]
    exact splitOn_sep [] _

theorem splitOn_seps (x t : PyStr) (n : Nat) :
    (x ++ (List.replicate (n + 1) '\\' ++ t)).splitOn '\\' =
      x.splitOn '\\' ++ (List.replicate n [] ++ t.splitOn '\\') := by
  rw [List.replicate_succ, List.cons_append, splitOn_sep, splitOn_replicate]

theorem emptyNames_replaceComponents (a : KeyAlias) (hc : emptyNames (a.canonical.splitOn '\\') = 0)
    (comps : List PyStr) : emptyNames (a.replaceComponents comps) +
      (if a.name.splitOn '\\' <+: comps then emptyNames (a.name.splitOn '\\') else 0) =
        emptyNames comps := by
  unfold KeyAlias.replaceComponents
  split
  next h =>
    obtain ⟨rest, rfl⟩ := h
    rw [List.drop_left]
    simp only [emptyNames, List.count_append] at hc ⊢
    omega
  next => rfl

/-- The native root is the one alias with an empty name in it. -/
theorem emptyNames_aliases (comps : List PyStr) :
    emptyNames (keyAliases.foldl (fun comps a => a.replaceComponents comps) comps) +
      (if nativeRoot.name.splitOn '\\' <+: comps then 1 else 0) = emptyNames comps := by
  have hnative : emptyNames (nativeRoot.name.splitOn '\\') = 1 := by decide
  have hshort : emptyNames (shortRoot.name.splitOn '\\') = 0 := by decide
  have hset : emptyNames (firstControlSet.name.splitOn '\\') = 0 := by decide
  have h1 := emptyNames_replaceComponents nativeRoot (by decide) comps
  have h2 := emptyNames_replaceComponents shortRoot (by decide)
    (nativeRoot.replaceComponents comps)
  have h3 := emptyNames_replaceComponents firstControlSet (by decide)
    (shortRoot.replaceComponents (nativeRoot.replaceComponents comps))
  rw [hnative] at h1
  rw [hshort, ite_self, Nat.add_zero] at h2
  rw [hset, ite_self, Nat.add_zero] at h3
  simp only [keyAliases, List.foldl_cons, List.foldl_nil]
  rw [h3, h2, h1]

theorem nativeRoot_names :
    nativeRoot.name.splitOn '\\' = [[], "registry".toList, "machine".toList] := by
  decide

/-- An empty name after the first one is no part of the native root. -/
theorem nativeRoot_before {first : List PyStr} (rest : List PyStr) (n : Nat) (hfirst : first ≠ [])
    (h : nativeRoot.name.splitOn '\\' <+: first ++ (List.replicate (n + 1) [] ++ rest)) :
    nativeRoot.name.splitOn '\\' <+: first := by
  rw [nativeRoot_names] at h ⊢
  match first with
  | [] => exact absurd rfl hfirst
  | [x] => simp [List.replicate_succ, List.cons_prefix_cons] at h
  | [x, y] => simp [List.replicate_succ, List.cons_prefix_cons] at h
  | x :: y :: z :: t =>
    simp only [List.cons_append, List.cons_prefix_cons, List.nil_prefix, and_true] at h ⊢
    exact h

theorem lower_seps_before (lc : LowerCase) (key t : PyStr) (n : Nat) :
    lc.str (key ++ (List.replicate (n + 1) '\\' ++ t)) =
      lc.str key ++ (List.replicate (n + 1) '\\' ++ lc.str t) := by
  induction n generalizing key with
  | zero => exact lc.sep key t
  | succ n ih =>
    rw [List.replicate_succ, List.cons_append, lc.sep, List.cons_append]
    have hrest := ih []
    simp only [List.nil_append, lc.nil] at hrest
    rw [hrest]

/-- The names of a path that no alias is in full. -/
theorem emptyNames_named {lc : DottedLowerCase} {path : PyStr}
    (h : bareAlias lc.toLowerCase path = none) :
    emptyNames ((lc.str (normalizeRegPath lc.toLowerCase path)).splitOn '\\') +
      (if nativeRoot.name.splitOn '\\' <+: (lc.str (rstripSep path)).splitOn '\\' then 1 else 0) =
        emptyNames ((lc.str (rstripSep path)).splitOn '\\') := by
  rw [normalize_named h]
  exact emptyNames_aliases _

theorem aliasNames_tail {name : PyStr} (h : name ∈ rootAliasNames ++ controlSetNames) :
    [] ∉ (name.splitOn '\\').tail ∧ (name.splitOn '\\').getLast? ≠ some [] := by
  have hall : ∀ name ∈ rootAliasNames ++ controlSetNames,
      [] ∉ (name.splitOn '\\').tail ∧ (name.splitOn '\\').getLast? ≠ some [] := by
    decide
  exact hall name h

theorem bareAlias_eq_none {lc : LowerCase} {path : PyStr}
    (h : lc.str path ∉ rootAliasNames ++ controlSetNames) : bareAlias lc path = none := by
  rw [List.mem_append, not_or] at h
  rw [bareAlias, if_neg h.1, if_neg h.2]

theorem bareAlias_of_empty {lc : LowerCase} {path : PyStr} (first rest : List PyStr)
    (hnames : (lc.str path).splitOn '\\' = first ++ rest) (hfirst : first ≠ []) (hrest : [] ∈ rest) :
    bareAlias lc path = none := by
  apply bareAlias_eq_none
  intro hin
  refine (aliasNames_tail hin).1 ?_
  rw [hnames]
  obtain ⟨x, xs, rfl⟩ := List.exists_cons_of_ne_nil hfirst
  exact List.mem_append_right _ hrest

theorem bareAlias_seps (lc : LowerCase) (path : PyStr) (n : Nat) :
    bareAlias lc (path ++ List.replicate (n + 1) '\\') = none := by
  refine bareAlias_of_empty ((lc.str path).splitOn '\\') (List.replicate n [] ++ [[]]) ?_ (List.splitOn_ne_nil _ _) (by simp)
  have hseps := splitOn_seps (lc.str path) [] n
  rw [List.append_nil] at hseps
  rw [lc.seps, hseps, List.splitOn_nil]

variable {lc : DottedLowerCase}

/-- Backslashes at the end of a path matter where it is an alias in full. -/
theorem samePath_seps_iff (q : PyStr) (n : Nat) :
    SamePath lc.toLowerCase (q ++ List.replicate n '\\') q ↔
      n = 0 ∨ bareAlias lc.toLowerCase q = none := by
  have hkey : keyComponents lc.toLowerCase (q ++ List.replicate n '\\') =
      keyComponents lc.toLowerCase q := by
    rw [keyComponents, rstripSep_seps, keyComponents]
  rw [samePath_iff hkey]
  cases n with
  | zero => simp
  | succ n =>
    rw [bareAlias_seps]
    simp [eq_comm]

theorem rootAliasNames_length {name : PyStr} (h : name ∈ rootAliasNames) :
    (name.splitOn '\\').length ≤ 3 := by
  have hall : ∀ name ∈ rootAliasNames, (name.splitOn '\\').length ≤ 3 := by decide
  exact hall name h

/-- A path with an empty name in the middle is another one without it. -/
theorem not_samePath_seps {key m : PyStr} (hm : m ≠ []) (hstrip : rstripSep m = m) (n b : Nat) :
    ¬SamePath lc.toLowerCase (key ++ (List.replicate (n + 2) '\\' ++ (m ++ List.replicate b '\\')))
      (key ++ '\\' :: m) := by
  intro hsame
  generalize hfirst : (lc.str key).splitOn '\\' = first
  generalize hrest : (lc.str m).splitOn '\\' = rest
  have hne : first ≠ [] := hfirst ▸ List.splitOn_ne_nil _ _
  have hrne : rest ≠ [] := hrest ▸ List.splitOn_ne_nil _ _
  have hlong : rstripSep (key ++ (List.replicate (n + 2) '\\' ++ (m ++ List.replicate b '\\'))) =
      key ++ (List.replicate (n + 2) '\\' ++ m) := by
    rw [← List.append_assoc, ← List.append_assoc, rstripSep_seps, List.append_assoc,
      List.replicate_succ', List.append_assoc, ← List.append_assoc, List.singleton_append]
    exact rstripSep_sep hm hstrip
  have hnames : (lc.str (key ++ (List.replicate (n + 2) '\\' ++ m))).splitOn '\\' =
      first ++ (List.replicate (n + 1) [] ++ rest) := by
    rw [lower_seps_before, splitOn_seps, hfirst, hrest]
  have hshort : (lc.str (key ++ '\\' :: m)).splitOn '\\' = first ++ rest := by
    rw [lc.sep, splitOn_sep, hfirst, hrest]
  have hbare : bareAlias lc.toLowerCase
      (key ++ (List.replicate (n + 2) '\\' ++ (m ++ List.replicate b '\\'))) = none := by
    refine bareAlias_of_empty first
      (List.replicate (n + 1) [] ++ (lc.str (m ++ List.replicate b '\\')).splitOn '\\') ?_ hne
      (by simp)
    rw [lower_seps_before, splitOn_seps, hfirst]
  have hcount := emptyNames_named hbare
  rw [hsame, hlong, hnames] at hcount
  have hbefore := nativeRoot_before rest n hne
  simp only [emptyNames, List.count_append, List.count_replicate_self] at hcount
  cases hq : bareAlias lc.toLowerCase (key ++ '\\' :: m) with
  | none =>
    have hother := emptyNames_named hq
    rw [rstripSep_sep hm hstrip, hshort] at hother
    simp only [emptyNames, List.count_append] at hother
    have hmatch : nativeRoot.name.splitOn '\\' <+: first ++ (List.replicate (n + 1) [] ++ rest) →
        nativeRoot.name.splitOn '\\' <+: first ++ rest :=
      fun h => (hbefore h).trans (List.prefix_append ..)
    split at hcount
    next h =>
      rw [if_pos (hmatch h)] at hother
      omega
    next =>
      split at hother
      next => omega
      next => omega
  | some x =>
    rw [(normalize_bare hq).1] at hcount
    unfold bareAlias at hq
    split at hq
    next hin =>
      -- The full path is a root: it has no room for the native root before the subkey.
      obtain rfl := Option.some.inj hq
      have hlen : (first ++ rest).length ≤ 3 := hshort ▸ rootAliasNames_length hin
      rw [hshort, List.count_append] at hcount
      split at hcount
      next h =>
        have hle := (hbefore h).length_le
        have hpos := List.length_pos_of_ne_nil hrne
        rw [nativeRoot_names] at hle
        simp only [List.length_append, List.length_cons, List.length_nil] at hlen hle
        omega
      next => omega
    next =>
      split at hq
      next =>
        obtain rfl := Option.some.inj hq
        have hnone : (firstControlSet.name.splitOn '\\').count [] = 0 := by decide
        rw [hnone] at hcount
        split at hcount
        next h =>
          have hle := (hbefore h).sublist.count_le []
          have hone : (nativeRoot.name.splitOn '\\').count [] = 1 := by decide
          omega
        next => omega
      next => cases hq

theorem KeyAlias.rename_eq_nil {a : KeyAlias} (ha : a.canonical ≠ []) {q : PyStr} (h : a.rename q = []) :
    q = [] := by
  rcases a.rename_eq h with ⟨_, hx⟩ | ⟨t, _, hx⟩ | hx
  · exact absurd hx.symm ha
  · simp at hx
  · exact hx

theorem normalizeRegPath_ne_nil {path : PyStr} (h : rstripSep path ≠ []) :
    lc.str (normalizeRegPath lc.toLowerCase path) ≠ [] := by
  intro hnil
  cases hb : bareAlias lc.toLowerCase path with
  | some x =>
    rw [(normalize_bare hb).1] at hnil
    have hnames : ∀ name ∈ rootAliasNames ++ [firstControlSet.name], name ≠ [] := by decide
    unfold bareAlias at hb
    split at hb
    next hin =>
      obtain rfl := Option.some.inj hb
      exact hnames _ (List.mem_append_left _ hin) hnil
    next =>
      split at hb
      next =>
        obtain rfl := Option.some.inj hb
        exact hnames _ (by simp) hnil
      next => cases hb
  | none =>
    have hkey := normalize_named hb
    rw [hnil, keyComponents_eq] at hkey
    have hren : renameAliases (rstripSep (lc.str path)) = [] := (splitOn_inj hkey).symm
    have hlow : rstripSep (lc.str path) = [] :=
      KeyAlias.rename_eq_nil (by decide) (KeyAlias.rename_eq_nil (by decide)
        (KeyAlias.rename_eq_nil (by decide) hren))
    rw [← lower_rstripSep] at hlow
    exact h (lc.empty _ hlow)

theorem samePath_ends (key : PyStr) (n m : Nat) :
    SamePath lc.toLowerCase (key ++ List.replicate (n + 1) '\\') (key ++ List.replicate (m + 1) '\\') := by
  refine (samePath_iff ?_).mpr ?_
  · rw [keyComponents, rstripSep_seps, keyComponents, rstripSep_seps]
  · rw [bareAlias_seps, bareAlias_seps]

theorem samePath_nil_sep : SamePath lc.toLowerCase [] ['\\'] := by
  refine (samePath_iff ?_).mpr ?_
  · rw [keyComponents, keyComponents]
    rfl
  · have hsep : bareAlias lc.toLowerCase ['\\'] = none := bareAlias_seps _ [] 0
    rw [hsep]
    refine bareAlias_eq_none ?_
    rw [lc.nil]
    decide

theorem lstripSep_of_stripSep {sub : PyStr} (h : stripSep sub = []) : lstripSep sub = [] := by
  obtain ⟨b, hb⟩ := rstripSep_append (lstripSep sub)
  rw [stripSep] at h
  rw [h, List.nil_append] at hb
  cases b with
  | zero => exact hb
  | succ b => exact absurd hb lstripSep_head

theorem rstripSep_sub_iff {sub : PyStr} (hm : stripSep sub ≠ []) {b : Nat}
    (hb : lstripSep sub = stripSep sub ++ List.replicate b '\\') : rstripSep sub = sub ↔ b = 0 := by
  have hsub := replicate_leadingSeps sub
  rw [hb, ← List.append_assoc] at hsub
  have hstrip : rstripSep (List.replicate (leadingSeps sub) '\\' ++ stripSep sub) =
      List.replicate (leadingSeps sub) '\\' ++ stripSep sub := by
    refine List.rdropWhile_eq_self_iff.mpr fun hne hlast => ?_
    rw [List.getLast_append_of_ne_nil _ hm] at hlast
    exact List.rdropWhile_eq_self_iff.mp (rstripSep_stripSep sub) hm hlast
  rw [← hsub, rstripSep_seps, hstrip]
  simp

/-- The path that a call opens is the full path where it joins the two as it must. -/
theorem samePath_joined_iff {key sub : PyStr} {e : RegEntry} (hsub : sub ≠ []) :
    SamePath lc.toLowerCase (e.joined key sub) (fullPath key sub) ↔ e.JoinsAs lc.toLowerCase key sub := by
  unfold fullPath RegEntry.JoinsAs
  rw [if_neg hsub]
  obtain ⟨n, hn⟩ := Nat.exists_eq_succ_of_ne_zero (Nat.pos_iff_ne_zero.mp
    (separators_pos e (leadingSeps sub)))
  by_cases hkey : e = .regCreateKeyEx → key ≠ []
  · rw [joined_parts hsub hkey, hn]
    by_cases hm : stripSep sub = []
    · rw [lstripSep_of_stripSep hm, hm, List.append_nil]
      exact iff_of_true (samePath_ends key n 0) (Or.inl rfl)
    · obtain ⟨b, hb⟩ := rstripSep_append (lstripSep sub)
      rw [← stripSep] at hb
      rw [rstripSep_sub_iff hm hb, hb]
      cases n with
      | zero =>
        have hpath : key ++ (List.replicate (Nat.succ 0) '\\' ++ (stripSep sub ++ List.replicate b '\\')) =
            (key ++ '\\' :: stripSep sub) ++ List.replicate b '\\' := by simp
        rw [hpath, samePath_seps_iff]
        constructor
        · exact fun h => Or.inr ⟨hkey, rfl, h⟩
        · rintro (h | ⟨_, _, h⟩)
          · exact absurd h hm
          · exact h
      | succ n =>
        refine iff_of_false (not_samePath_seps hm (rstripSep_stripSep sub) n b) ?_
        simp [hm]
  · have hex : e = .regCreateKeyEx ∧ key = [] := by simpa using hkey
    obtain ⟨rfl, rfl⟩ := hex
    have hnil : RegEntry.joined [] sub .regCreateKeyEx = [] := by
      simp [RegEntry.joined, RegistryManager.createPath]
    rw [hnil]
    by_cases hm : stripSep sub = []
    · rw [hm]
      exact iff_of_true samePath_nil_sep (Or.inl rfl)
    · refine iff_of_false (fun hsame => ?_) (by simp [hm])
      have hne : rstripSep ([] ++ '\\' :: stripSep sub) ≠ [] := by
        rw [rstripSep_sep hm (rstripSep_stripSep sub)]
        simp
      apply @normalizeRegPath_ne_nil lc _ hne
      rw [← hsame]
      exact lc.nil

end

end Speakeasy
