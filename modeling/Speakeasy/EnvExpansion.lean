import Speakeasy.EnvStrings

namespace Speakeasy

section

variable {lc : LowerCase} {env before : EnvVars} {var : PyStr × PyStr} {ps : List EnvPiece}

theorem varValue_mem {name value : PyStr} (h : varValue lc env name = some value) :
    ∃ var ∈ env, lc.str var.1 = lc.str name ∧ var.2 = value := by
  obtain ⟨var, hfind, hvalue⟩ := Option.map_eq_some_iff.mp h
  have hname : decide (lc.str var.1 = lc.str name) = true :=
    List.find?_some (p := fun v : PyStr × PyStr => decide (lc.str v.1 = lc.str name)) hfind
  exact ⟨var, List.mem_of_find?_eq_some hfind, of_decide_eq_true hname, hvalue⟩

theorem varValue_of_mem (hunique : UniqueNames lc env) (hvar : var ∈ env) {name : PyStr}
    (hname : lc.str var.1 = lc.str name) : varValue lc env name = some var.2 := by
  unfold varValue
  induction env with
  | nil => cases hvar
  | cons v env ih =>
    obtain ⟨hout, hunique⟩ := List.nodup_cons.mp hunique
    by_cases hv : lc.str v.1 = lc.str name
    · rw [List.find?_cons_of_pos (p := fun v : PyStr × PyStr => decide (lc.str v.1 = lc.str name)) (decide_eq_true hv),
        Option.map_some]
      cases List.mem_cons.mp hvar with
      | inl heq => rw [heq]
      | inr hin => exact absurd (List.mem_map.mpr ⟨var, hin, hname.trans hv.symm⟩) hout
    · rw [List.find?_cons_of_neg (p := fun v : PyStr × PyStr => decide (lc.str v.1 = lc.str name)) (by simpa using hv)]
      refine ih hunique ?_
      cases List.mem_cons.mp hvar with
      | inl heq => exact absurd (heq ▸ hname) hv
      | inr hin => exact hin

theorem text_ref (lc : LowerCase) (vars : EnvVars) (name value : PyStr) : (EnvPiece.ref name value).text lc vars =
    if (vars.any fun v => decide (lc.str v.1 = lc.str name)) then value else '%' :: name ++ ['%'] := rfl

/-- A variable replaces its own references alone. -/
theorem text_snoc_of_not_names {p : EnvPiece} (hp : ¬p.Names lc var.1) :
    p.text lc (before ++ [var]) = p.text lc before := by
  cases p with
  | char c => rfl
  | ref name value =>
    have hname : ¬lc.str var.1 = lc.str name := fun heq => hp heq.symm
    rw [text_ref, text_ref, List.any_append, List.any_cons, List.any_nil, decide_eq_false hname, Bool.or_false, Bool.or_false]

theorem piecesText_snoc_of_not_names (hps : ∀ p ∈ ps, ¬p.Names lc var.1) :
    piecesText lc (before ++ [var]) ps = piecesText lc before ps := by
  unfold piecesText
  induction ps with
  | nil => rfl
  | cons p ps ih =>
    rw [List.flatMap_cons, List.flatMap_cons, text_snoc_of_not_names (hps p List.mem_cons_self),
      ih fun q hq => hps q (List.mem_cons_of_mem p hq)]

theorem text_ref_before {name value : PyStr} (hout : ∀ v ∈ before, lc.str v.1 ≠ lc.str name) :
    (EnvPiece.ref name value).text lc before = '%' :: name ++ ['%'] := by
  rw [text_ref, if_neg]
  intro hany
  obtain ⟨v, hv, heq⟩ := List.any_eq_true.mp hany
  exact hout v hv (of_decide_eq_true heq)

theorem text_ref_of_mem {name value : PyStr} (hvar : var ∈ before) (hname : lc.str var.1 = lc.str name) :
    (EnvPiece.ref name value).text lc before = value :=
  if_pos (List.any_eq_true.mpr ⟨var, hvar, decide_eq_true hname⟩)

/-- A turn replaces the reference to its variable. -/
theorem DirectTurn.expandVar_eq (h : DirectTurn lc before var.1 ps)
    (hvalue : ∀ {name value}, EnvPiece.ref name value ∈ ps → lc.str name = lc.str var.1 → value = var.2)
    (hout : ∀ v ∈ before, lc.str v.1 ≠ lc.str var.1) :
    expandVar lc (piecesText lc before ps) var = piecesText lc (before ++ [var]) ps := by
  unfold expandVar
  unfold DirectTurn at h
  cases hfind : strFind (reference lc var.1) (lc.str (piecesText lc before ps)) with
  | none =>
    rw [hfind] at h
    exact (piecesText_snoc_of_not_names h).symm
  | some o =>
    rw [hfind] at h
    obtain ⟨ps₁, name, value, ps₂, rfl, hname, hposition, hlength, hother⟩ := h
    have hbefore : (EnvPiece.ref name value).text lc before = '%' :: name ++ ['%'] :=
      text_ref_before fun v hv => hname ▸ hout v hv
    have hafter : (EnvPiece.ref name value).text lc (before ++ [var]) = var.2 := by
      rw [text_ref_of_mem (List.mem_append_right before List.mem_cons_self) hname.symm]
      exact hvalue (List.mem_append_right ps₁ List.mem_cons_self) hname
    have hlen : (reference lc var.1).length = ('%' :: name ++ ['%']).length := by
      rw [reference, ← hname]
      simp only [List.length_append, List.length_cons, List.length_nil]
      omega
    have hfirst := @piecesText_snoc_of_not_names lc before var ps₁ fun p hp => hother p (List.mem_append_left ps₂ hp)
    have hsecond := @piecesText_snoc_of_not_names lc before var ps₂ fun p hp => hother p (List.mem_append_right ps₁ hp)
    simp only [piecesText_append, piecesText_cons, hbefore, hafter, hfirst, hsecond, hposition, hlen]
    generalize '%' :: name ++ ['%'] = named
    rw [List.take_left, ← List.append_assoc, ← List.append_assoc, ← List.length_append, List.drop_left]

theorem piecesText_expandVar (hunique : UniqueNames lc env) {src : PyStr} (hdirect : Direct lc env src)
    (before after : EnvVars) (henv : env = before ++ after) :
    before.foldl (expandVar lc) src = piecesText lc before (envPieces lc env 0 src) := by
  induction before using List.reverseRecOn generalizing after with
  | nil => exact (piecesText_nil src).symm
  | append_singleton before var ih =>
    have hsplit : env = before ++ var :: after := by rw [henv, List.append_assoc, List.singleton_append]
    rw [List.foldl_append, List.foldl_cons, List.foldl_nil, ih (var :: after) hsplit]
    have hvar : var ∈ env := by
      rw [hsplit]
      exact List.mem_append_right before List.mem_cons_self
    refine (hdirect before var after hsplit).expandVar_eq (fun {name value} hin hname => ?_) fun v hv heq => ?_
    · have hown := varValue_of_mem hunique hvar hname.symm
      rw [envPieces_value src hin] at hown
      exact Option.some.inj hown
    · have hnodup := hunique
      unfold UniqueNames at hnodup
      rw [hsplit, List.map_append, List.nodup_append] at hnodup
      exact hnodup.2.2 _ (List.mem_map_of_mem hv) _ (List.mem_map_of_mem List.mem_cons_self) heq

/-- When each variable replaces its own reference, all of them do one pass. -/
theorem expandText_eq_expandOnce (hunique : UniqueNames lc env) {src : PyStr} (hdirect : Direct lc env src) :
    expandText lc env src = expandOnce lc env src :=
  piecesText_expandVar hunique hdirect env [] (List.append_nil env).symm

theorem varValue_perm {env' : EnvVars} (hunique : UniqueNames lc env) (hperm : env'.Perm env) (name : PyStr) :
    varValue lc env' name = varValue lc env name := by
  have hunique' : UniqueNames lc env' := (hperm.map _).nodup_iff.mpr hunique
  cases hvalue : varValue lc env name with
  | some value =>
    obtain ⟨var, hvar, hname, rfl⟩ := varValue_mem hvalue
    exact varValue_of_mem hunique' (hperm.mem_iff.mpr hvar) hname
  | none =>
    cases hvalue' : varValue lc env' name with
    | none => rfl
    | some value =>
      obtain ⟨var, hvar, hname, rfl⟩ := varValue_mem hvalue'
      rw [varValue_of_mem hunique (hperm.mem_iff.mp hvar) hname] at hvalue
      cases hvalue

/-- One pass does not see the order of the variables. -/
theorem expandOnce_perm {env' : EnvVars} (hunique : UniqueNames lc env) (hperm : env'.Perm env) (src : PyStr) :
    expandOnce lc env' src = expandOnce lc env src := by
  unfold expandOnce piecesText
  rw [envPieces_congr src fun _ name _ _ _ => varValue_perm hunique hperm name]
  congr 1
  funext p
  cases p with
  | char c => rfl
  | ref name value =>
    have hany : (env'.any fun v => decide (lc.str v.1 = lc.str name)) =
      env.any fun v => decide (lc.str v.1 = lc.str name) := by
      rw [Bool.eq_iff_iff, List.any_eq_true, List.any_eq_true]
      exact ⟨fun ⟨v, hv, heq⟩ => ⟨v, hperm.mem_iff.mp hv, heq⟩, fun ⟨v, hv, heq⟩ => ⟨v, hperm.mem_iff.mpr hv, heq⟩⟩
    rw [text_ref, text_ref, hany]

end

section

theorem strFind_of_infix {pat s : PyStr} (h : pat <:+: s) : ∃ o, strFind pat s = some o := by
  induction s with
  | nil =>
    unfold strFind
    rw [if_pos (List.infix_nil.mp h ▸ List.nil_prefix)]
    exact ⟨0, rfl⟩
  | cons c s ih =>
    unfold strFind
    by_cases hprefix : pat <+: c :: s
    · rw [if_pos hprefix]
      exact ⟨0, rfl⟩
    · rw [if_neg hprefix]
      obtain ⟨o, ho⟩ := ih ((List.infix_cons_iff.mp h).resolve_left hprefix)
      exact ⟨o + 1, by rw [ho, Option.map_some]⟩

theorem infix_of_strFind {pat s : PyStr} {o : Nat} (h : strFind pat s = some o) : pat <:+: s := by
  induction s generalizing o with
  | nil =>
    unfold strFind at h
    split at h
    next hprefix => exact hprefix.isInfix
    next => cases h
  | cons c s ih =>
    unfold strFind at h
    split at h
    next hprefix => exact hprefix.isInfix
    next =>
      obtain ⟨o', ho', _⟩ := Option.map_eq_some_iff.mp h
      exact List.infix_cons (ih ho')

theorem percentName_none {s : PyStr} (h : percentName s = none) : '%' ∉ s := by
  intro hin
  induction s with
  | nil => cases hin
  | cons c s ih =>
    unfold percentName at h
    by_cases hc : c = '%'
    · rw [if_pos hc] at h
      cases h
    · rw [if_neg hc] at h
      exact ih (Option.map_eq_none_iff.mp h) ((List.mem_cons.mp hin).resolve_left fun heq => hc heq.symm)

theorem percentName_of_count {s : PyStr} (h : 0 < s.count '%') :
    ∃ name rest, '%' ∉ name ∧ s = name ++ '%' :: rest ∧ s.count '%' = rest.count '%' + 1 := by
  cases hname : percentName s with
  | none =>
    rw [List.count_eq_zero_of_not_mem (percentName_none hname)] at h
    omega
  | some name =>
    obtain ⟨hout, rest, hs⟩ := percentName_eq hname
    refine ⟨name, rest, hout, hs, ?_⟩
    rw [hs, List.count_append, List.count_cons_self, List.count_eq_zero_of_not_mem hout]
    omega

variable {lc : EnvCase} {env : EnvVars} {src : PyStr}

theorem count_lower (lc : EnvCase) (s : PyStr) : (lc.str s).count '%' = s.count '%' := by
  induction hn : s.count '%' generalizing s with
  | zero => exact List.count_eq_zero_of_not_mem (lc.noPercent s (List.count_eq_zero.mp hn))
  | succ n ih =>
    obtain ⟨name, rest, hout, hs, hcount⟩ := percentName_of_count (show 0 < s.count '%' by omega)
    rw [hs, lc.percent, List.count_append, List.count_cons_self, ih rest (by omega),
      List.count_eq_zero_of_not_mem (lc.noPercent name hout)]
    omega

/-- Without a pair of percent signs there is no reference. -/
theorem envPieces_not_names {name : PyStr} (hcount : src.count '%' ≤ 1) {p : EnvPiece}
    (hp : p ∈ envPieces lc.toLowerCase env 0 src) : ¬p.Names lc.toLowerCase name := by
  induction src using envPieces_induct lc.toLowerCase env with
  | nil => cases hp
  | char c s heq ih =>
    rw [heq] at hp
    cases List.mem_cons.mp hp with
    | inl hchar =>
      rw [hchar]
      exact id
    | inr hin => exact ih (Nat.le_trans (List.count_le_count_cons) hcount) hin
  | ref name' value rest hname hvalue heq ih =>
    rw [List.count_cons_self, List.count_append, List.count_cons_self] at hcount
    omega

theorem piecesText_of_count (hcount : src.count '%' ≤ 1) (vars : EnvVars) :
    piecesText lc.toLowerCase vars (envPieces lc.toLowerCase env 0 src) = src := by
  induction vars using List.reverseRecOn with
  | nil => exact piecesText_nil src
  | append_singleton vars var ih =>
    rw [piecesText_snoc_of_not_names fun p hp => envPieces_not_names hcount hp, ih]

theorem direct_of_count (hcount : src.count '%' ≤ 1) : Direct lc.toLowerCase env src := by
  intro before var after _
  unfold DirectTurn
  rw [piecesText_of_count hcount]
  cases hfind : strFind (reference lc.toLowerCase var.1) (lc.str src) with
  | none => exact fun p hp => envPieces_not_names hcount hp
  | some o =>
    have hle := (infix_of_strFind hfind).sublist.count_le '%'
    rw [count_lower] at hle
    have htwo : 2 ≤ (reference lc.toLowerCase var.1).count '%' := by
      unfold reference
      rw [List.cons_append, List.count_cons_self, List.count_append]
      have hone : List.count '%' ['%'] = 1 := rfl
      omega
    omega

theorem expandVar_of_infix {dst : PyStr} (var : PyStr × PyStr) (h : reference lc.toLowerCase var.1 <:+: lc.str dst) :
    ∃ a b, expandVar lc.toLowerCase dst var = a ++ var.2 ++ b := by
  obtain ⟨o, ho⟩ := strFind_of_infix h
  unfold expandVar
  rw [ho]
  exact ⟨_, _, rfl⟩

theorem reference_within (lc : EnvCase) (a name b : PyStr) :
    reference lc.toLowerCase name <:+: lc.str (a ++ '%' :: (name ++ '%' :: b)) := by
  rw [lc.percent, lc.percent]
  exact ⟨lc.str a, lc.str b, by simp [reference]⟩

/-- The name of a reference is no longer than the source. -/
theorem length_name_le (lc : EnvCase) (a name b : PyStr) :
    (lc.str name).length ≤ (lc.str (a ++ '%' :: (name ++ '%' :: b))).length := by
  rw [lc.percent, lc.percent]
  simp only [List.length_append, List.length_cons]
  omega

end

section

variable {lc : EnvCase} {env : EnvVars} {src : PyStr}

theorem expandLaw_iff_text (lc : LowerCase) (env : EnvVars) (src : PyStr) :
    ExpandLaw lc env src ↔ expandText lc env src = expandOnce lc env src := by
  constructor
  · intro h
    have hlong := h 1 ((expandText lc env src).length + (expandOnce lc env src).length + 1)
    unfold expandEnvironmentStrings at hlong
    simp only at hlong
    rw [if_pos ⟨Nat.one_ne_zero, by omega⟩, if_pos ⟨Nat.one_ne_zero, by omega⟩] at hlong
    exact Option.some.inj (congrArg Prod.snd hlong)
  · intro h lpDst nSize
    unfold expandEnvironmentStrings
    simp only [h]

/-- A variable whose value names another one. -/
def chainedEnv (name m v : PyStr) : EnvVars := [(name, '%' :: m ++ ['%']), (m, v)]

/-- A name that is longer than every name in the source. -/
def longName (lc : LowerCase) (src : PyStr) : PyStr := List.replicate ((lc.str src).length + 1) 'm'

theorem longName_lower (lc : LowerCase) (src : PyStr) : lc.str (longName lc src) = longName lc src := by
  have hascii : ∀ c ∈ longName lc src, c.toNat < 128 := by
    intro c hc
    rw [List.eq_of_mem_replicate hc]
    decide
  rw [lc.ascii _ hascii, longName, List.map_replicate]
  rfl

theorem longName_ne (lc : EnvCase) (a name b : PyStr) :
    lc.str (longName lc.toLowerCase (a ++ '%' :: (name ++ '%' :: b))) ≠ lc.str name := by
  intro heq
  have hle := length_name_le lc a name b
  rw [← heq, longName_lower, longName, List.length_replicate] at hle
  omega

theorem chainedEnv_unique {name m v : PyStr} (h : lc.str m ≠ lc.str name) :
    UniqueNames lc.toLowerCase (chainedEnv name m v) := by
  refine List.nodup_cons.mpr ⟨fun hin => h ?_, List.nodup_singleton _⟩
  exact (List.mem_singleton.mp hin).symm

/-- One pass over the source does not meet the long name. -/
theorem expandOnce_chained (lc : EnvCase) (src name v v' : PyStr) :
    expandOnce lc.toLowerCase (chainedEnv name (longName lc.toLowerCase src) v) src =
      expandOnce lc.toLowerCase (chainedEnv name (longName lc.toLowerCase src) v') src := by
  unfold expandOnce piecesText
  rw [envPieces_congr src fun a name' b hsrc _ => ?_]
  · rfl
  · have hne : lc.str (longName lc.toLowerCase src) ≠ lc.str name' := by
      rw [hsrc]
      exact longName_ne lc a name' b
    unfold varValue chainedEnv
    by_cases hname : lc.str name = lc.str name'
    · simp only [List.find?_cons, hname, decide_true, Option.map_some]
    · simp only [List.find?_cons, hname, hne, decide_false, List.find?_nil, Option.map_none]

/-- The loop replaces what the first variable inserts. -/
theorem length_expandText_chained (lc : EnvCase) (a name b m v : PyStr) :
    v.length ≤ (expandText lc.toLowerCase (chainedEnv name m v) (a ++ '%' :: (name ++ '%' :: b))).length := by
  unfold expandText chainedEnv
  rw [List.foldl_cons, List.foldl_cons, List.foldl_nil]
  obtain ⟨c, d, hfirst⟩ := expandVar_of_infix (name, '%' :: m ++ ['%']) (reference_within lc a name b)
  rw [hfirst]
  have hshape : c ++ ('%' :: m ++ ['%']) ++ d = c ++ '%' :: (m ++ '%' :: d) := by
    rw [List.append_assoc, List.cons_append, List.cons_append, List.append_assoc, List.singleton_append]
  obtain ⟨e, f, hsecond⟩ := expandVar_of_infix (m, v) (hshape ▸ reference_within lc c m d)
  rw [hsecond, List.length_append, List.length_append]
  exact Nat.le_trans (Nat.le_add_left _ _) (Nat.le_add_right _ _)

/-- The call does one pass over the source when each variable replaces its own reference, which then does
not depend on their order. It does so in every environment only when the source has no pair of percent signs. -/
theorem expandLaw_direct (lc : EnvCase) :
    (∀ env src, UniqueNames lc.toLowerCase env → Direct lc.toLowerCase env src → ExpandLaw lc.toLowerCase env src ∧
      ∀ env' : EnvVars, env'.Perm env → expandOnce lc.toLowerCase env' src = expandOnce lc.toLowerCase env src) ∧
    ∀ src, (∀ env, UniqueNames lc.toLowerCase env → ExpandLaw lc.toLowerCase env src) ↔ src.count '%' ≤ 1 := by
  refine ⟨fun env src hunique hdirect => ⟨?_, fun env' hperm => expandOnce_perm hunique hperm src⟩, fun src => ?_⟩
  · exact (expandLaw_iff_text _ env src).mpr (expandText_eq_expandOnce hunique hdirect)
  · constructor
    · intro h
      by_contra hcount
      obtain ⟨a, s, _, hsrc, hrest⟩ := percentName_of_count (show 0 < src.count '%' by omega)
      obtain ⟨name, b, _, hs, _⟩ := percentName_of_count (show 0 < s.count '%' by omega)
      have hpair : src = a ++ '%' :: (name ++ '%' :: b) := by rw [hsrc, hs]
      let m := longName lc.toLowerCase src
      let pass := expandOnce lc.toLowerCase (chainedEnv name m []) src
      have hunique : UniqueNames lc.toLowerCase (chainedEnv name m (List.replicate (pass.length + 1) 'z')) := by
        refine chainedEnv_unique ?_
        show lc.str (longName lc.toLowerCase src) ≠ lc.str name
        rw [hpair]
        exact longName_ne lc a name b
      have htext := (expandLaw_iff_text _ _ src).mp (h _ hunique)
      rw [expandOnce_chained lc src name _ []] at htext
      have hle := length_expandText_chained lc a name b m (List.replicate (pass.length + 1) 'z')
      rw [← hpair, htext, List.length_replicate] at hle
      have hlt : pass.length + 1 ≤ pass.length := hle
      omega
    · intro hcount env hunique
      exact (expandLaw_iff_text _ env src).mpr (expandText_eq_expandOnce hunique (direct_of_count hcount))

theorem toLower_eq_percent {c : Char} (h : c.toLower = '%') : c = '%' := by
  unfold Char.toLower at h
  split at h
  next hc =>
    have hval := congrArg (fun c => c.val.toNat) h
    have hle := UInt32.le_iff_toNat_le.mp hc.1
    have hge := UInt32.le_iff_toNat_le.mp hc.2
    simp at hval hle hge
    omega
  next => exact h

def asciiEnv : EnvCase where
  toLowerCase := asciiLower
  percent s t := by simp [asciiLower]
  noPercent s hs := by
    intro hin
    obtain ⟨c, hc, heq⟩ := List.mem_map.mp hin
    exact hs (toLower_eq_percent heq ▸ hc)

/-- The value of `a` names `b`. -/
def chained : EnvVars := [(['a'], ['%', 'b', '%']), (['b'], ['x'])]

theorem expandLaw_direct_two : ExpandLaw asciiLower chained.reverse ['%', 'A', '%', 'c', '%', 'B', '%', '%'] ∧
    expandOnce asciiLower chained ['%', 'A', '%', 'c', '%', 'B', '%', '%'] = ['%', 'b', '%', 'c', 'x', '%'] := by
  have hlaw := (expandLaw_direct asciiEnv).1 chained.reverse ['%', 'A', '%', 'c', '%', 'B', '%', '%'] (by decide)
    (by
      intro before var after henv
      match before, henv with
      | [], henv =>
        obtain ⟨rfl, _⟩ := List.cons.inj henv
        exact ⟨[.ref ['A'] ['%', 'b', '%'], .char 'c'], ['B'], ['x'], [.char '%'], rfl, rfl, rfl, rfl, by decide⟩
      | [v], henv =>
        obtain ⟨hv, henv⟩ := List.cons.inj henv
        rw [← hv]
        obtain ⟨rfl, _⟩ := List.cons.inj henv
        exact ⟨[], ['A'], ['%', 'b', '%'], [.char 'c', .ref ['B'] ['x'], .char '%'], rfl, rfl, rfl, rfl, by decide⟩
      | _ :: _ :: _, henv =>
        obtain ⟨_, henv⟩ := List.cons.inj henv
        obtain ⟨_, henv⟩ := List.cons.inj henv
        cases List.append_eq_nil_iff.mp henv.symm with
        | intro _ hcons => cases hcons)
  exact ⟨hlaw.1, hlaw.2 chained (by decide)⟩

/-- The inserted value is scanned again, and the other order of the variables gives another text. -/
theorem not_expandLaw_chained : UniqueNames asciiLower chained ∧ ¬ExpandLaw asciiLower chained ['%', 'a', '%'] ∧
    chained.reverse.Perm chained ∧
    expandText asciiLower chained.reverse ['%', 'a', '%'] ≠ expandText asciiLower chained ['%', 'a', '%'] := by
  refine ⟨by decide, fun h => ?_, by decide, by decide⟩
  exact absurd ((expandLaw_iff_text _ _ _).mp h) (by decide)

end

end Speakeasy
