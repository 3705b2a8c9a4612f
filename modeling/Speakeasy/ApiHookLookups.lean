import Speakeasy.ApiHooks

namespace Speakeasy

open ApiHookTable OrderedDict

theorem globTokensLoop_literal {fuel : Nat} {pat : List Char} (h : hasWildcard pat = false) :
    ∀ t ∈ globTokensLoop fuel pat, ∃ c, t = .lit c := by
  induction fuel generalizing pat with
  | zero => simp [globTokensLoop]
  | succ fuel ih =>
    cases pat with
    | nil => simp [globTokensLoop]
    | cons c pat =>
      have hc : c ≠ '?' ∧ c ≠ '*' ∧ c ≠ '[' ∧ hasWildcard pat = false := by
        simp only [hasWildcard, List.any_cons, List.any_nil, List.contains_cons, Bool.or_false,
          Bool.or_eq_false_iff, beq_eq_false_iff_ne] at h ⊢
        exact ⟨Ne.symm h.1.1, Ne.symm h.2.1.1, Ne.symm h.2.2.1.1, h.1.2, h.2.1.2, h.2.2.1.2, h.2.2.2.2⟩
      intro t ht
      rw [globTokensLoop, if_neg hc.2.1, if_neg hc.1, if_neg hc.2.2.1] at ht
      rcases List.mem_cons.mp ht with rfl | ht
      · exact ⟨c, rfl⟩
      · exact ih hc.2.2.2 t ht

/-- A pattern without wildcards matches itself only. -/
theorem fnmatch_literal {pat : PyStr} (h : hasWildcard pat = false) (name : PyStr) :
    fnmatch name pat = true ↔ name = pat :=
  fnmatch_globFree (globTokensLoop_literal h) name

/-- The keys that a lookup of a name comes to, in its order. -/
def lookupKeys (name : PyStr) (keys : List PyStr) : List PyStr :=
  (if name ∈ keys then [name] else []) ++
    keys.filter fun k => fnmatch name k && decide (name ≠ k)

theorem mem_lookupKeys {name k : PyStr} {keys : List PyStr} :
    k ∈ lookupKeys name keys ↔ k ∈ keys ∧ NameMatches name k := by
  unfold lookupKeys NameMatches
  by_cases hname : name = k
  · subst hname
    simp
  · by_cases hin : name ∈ keys
    · simp [hin, hname, Ne.symm hname]
    · simp [hin, hname]

theorem lookupKeys_sorted {name : PyStr} {keys uses : List PyStr} (h : FirstUses keys uses) :
    (lookupKeys name keys).Pairwise fun a b => lookupRank uses name a < lookupRank uses name b := by
  have hrest : ∀ k ∈ keys.filter (fun k => fnmatch name k && decide (name ≠ k)), k ≠ name := by
    intro k hk
    have := (List.mem_filter.mp hk).2
    simp only [Bool.and_eq_true, decide_eq_true_eq] at this
    exact Ne.symm this.2
  refine List.pairwise_append.mpr ⟨?_, ?_, fun a ha b hb => ?_⟩
  · split
    next => exact List.pairwise_singleton ..
    next => exact List.Pairwise.nil
  · refine (h.order.sublist List.filter_sublist).imp_of_mem fun {a b} ha hb hlt => ?_
    rw [lookupRank, lookupRank, if_neg (hrest a ha), if_neg (hrest b hb)]
    omega
  · have ha : a = name := by
      split at ha
      next => exact List.mem_singleton.mp ha
      next => cases ha
    rw [lookupRank, lookupRank, if_pos ha, if_neg (hrest b hb)]
    omega

/-- A lookup in a dictionary whose flag says whether one of its keys has wildcards. -/
theorem lookup_eq {α β : Type} {d : OrderedDict PyStr α} {f : α → List β} {F : PyStr → List β}
    {flag : Bool} {uses : List PyStr} (hd : FirstUses d.keys uses) (hflag : flag = uses.any hasWildcard)
    (h : ∀ k v, d.get? k = some v → f v = F k) (name : PyStr) :
    ((d.get? name).toList.flatMap f ++
      if flag then
        (d.entries.filter fun e => fnmatch name e.1 && decide (name ≠ e.1)).flatMap fun e => f e.2
      else []) = (lookupKeys name d.keys).flatMap F := by
  have hexact : (d.get? name).toList.flatMap f =
      (if name ∈ d.keys then [name] else []).flatMap F := by
    cases hget : d.get? name with
    | none =>
      rw [if_neg (get?_eq_none.mp hget)]
      rfl
    | some v =>
      rw [if_pos (mem_keys_of_get? hget)]
      simp [h name v hget]
  have hwild : (if flag then
      (d.entries.filter fun e => fnmatch name e.1 && decide (name ≠ e.1)).flatMap fun e => f e.2
      else []) = (d.keys.filter fun k => fnmatch name k && decide (name ≠ k)).flatMap F := by
    split
    next => exact flatMap_entries h fun k => fnmatch name k && decide (name ≠ k)
    next hfalse =>
      have hnone : (d.keys.filter fun k => fnmatch name k && decide (name ≠ k)) = [] := by
        refine List.filter_eq_nil_iff.mpr fun k hk hmatch => ?_
        simp only [Bool.and_eq_true, decide_eq_true_eq] at hmatch
        have hplain : hasWildcard k = false := by
          by_contra hw
          refine hfalse (hflag.trans (List.any_eq_true.mpr ⟨k, (hd.mem k).mp hk, ?_⟩))
          simpa using hw
        exact hmatch.2 ((fnmatch_literal hplain name).mp hmatch.1)
      rw [hnone]
      rfl
  rw [hexact, hwild, lookupKeys, List.flatMap_append]

namespace ApiHookHistory

variable {s : ApiHookHistory}

/-- The keys of the APIs of a module pattern. -/
def apiKeys (s : ApiHookHistory) (module : PyStr) : List PyStr :=
  ((s.modules.get? module).map fun m => m.hooks.keys).getD []

/-- The groups of hooks that a lookup comes to, in its order. -/
def lookupGroups (s : ApiHookHistory) (modName funcName : PyStr) : List (PyStr × PyStr) :=
  (lookupKeys modName s.modules.keys).flatMap fun module =>
    (lookupKeys funcName (s.apiKeys module)).map fun api => (module, api)

theorem moduleHooks_eq {module : PyStr} {m : ModuleHooks} (hm : s.ModuleInv module m)
    (funcName : PyStr) : moduleHooks funcName m =
      (lookupKeys funcName m.hooks.keys).flatMap fun api =>
        s.registered.filter fun h => decide ((h.module, h.apiName) = (module, api)) := by
  have hlookup := lookup_eq (f := fun hooks => hooks) hm.keys hm.wildcard hm.hooks funcName
  have hexact : (m.hooks.get? funcName).getD [] =
      (m.hooks.get? funcName).toList.flatMap fun hooks => hooks := by
    cases m.hooks.get? funcName with
    | none => rfl
    | some hooks => simp
  rw [moduleHooks, hexact]
  exact hlookup

theorem lookupGroups_sorted (hi : Inv s) (lc : LowerCase) (modName funcName : PyStr) :
    (s.lookupGroups (lc.str modName) (lc.str funcName)).Pairwise fun a b =>
      s.groupRank lc modName funcName a < s.groupRank lc modName funcName b := by
  have hapis : ∀ module, FirstUses (s.apiKeys module) (s.apiUses module) ∨ s.apiKeys module = [] := by
    intro module
    unfold apiKeys
    cases hget : s.modules.get? module with
    | none => exact Or.inr rfl
    | some m => exact Or.inl (hi.modules module m hget).keys
  refine List.pairwise_flatMap.mpr ⟨fun module _ => ?_, ?_⟩
  · rw [List.pairwise_map]
    rcases hapis module with hkeys | hnil
    · refine (lookupKeys_sorted hkeys).imp fun {a b} hlt => ?_
      exact Prod.Lex.toLex_lt_toLex.mpr (Or.inr ⟨rfl, hlt⟩)
    · rw [hnil]
      simp [lookupKeys]
  · refine (lookupKeys_sorted hi.keys).imp fun {a b} hlt x hx y hy => ?_
    obtain ⟨_, _, rfl⟩ := List.mem_map.mp hx
    obtain ⟨_, _, rfl⟩ := List.mem_map.mp hy
    exact Prod.Lex.toLex_lt_toLex.mpr (Or.inl hlt)

theorem mem_lookupGroups (hi : Inv s) {modName funcName : PyStr} {h : ApiHook}
    (hin : h ∈ s.registered) (hmod : NameMatches modName h.module)
    (hapi : NameMatches funcName h.apiName) :
    (h.module, h.apiName) ∈ s.lookupGroups modName funcName := by
  have huse : h.module ∈ s.modules.keys :=
    (hi.keys.mem _).mpr (List.mem_map.mpr ⟨h, hi.registered h hin, rfl⟩)
  obtain ⟨m, hm⟩ := mem_keys.mp huse
  have hget := get?_eq_some.mpr hm
  have hkeys : s.apiKeys h.module = m.hooks.keys := by simp [apiKeys, hget]
  have hused : h.apiName ∈ m.hooks.keys := by
    refine ((hi.modules _ m hget).keys.mem _).mpr (List.mem_map.mpr ⟨h, ?_, rfl⟩)
    exact List.mem_filter.mpr ⟨hi.registered h hin, by simp⟩
  refine List.mem_flatMap.mpr ⟨h.module, mem_lookupKeys.mpr ⟨huse, hmod⟩, ?_⟩
  exact List.mem_map.mpr ⟨h.apiName, mem_lookupKeys.mpr ⟨hkeys ▸ hused, hapi⟩, rfl⟩

/-- A lookup reads the hooks that match group by group. -/
theorem getApiHooks_groups (hi : Inv s) (lc : LowerCase) (modName funcName : PyStr) :
    s.table.getApiHooks lc modName funcName =
      (s.lookupGroups (lc.str modName) (lc.str funcName)).flatMap fun g =>
        (s.matching lc modName funcName).filter fun h => decide ((h.module, h.apiName) = g) := by
  have hmodules : ∀ module m, s.modules.get? module = some m →
      moduleHooks (lc.str funcName) m = (lookupKeys (lc.str funcName) (s.apiKeys module)).flatMap
        fun api => s.registered.filter fun h => decide ((h.module, h.apiName) = (module, api)) := by
    intro module m hget
    rw [moduleHooks_eq (hi.modules module m hget)]
    simp [apiKeys, hget]
  have hlookup := lookup_eq hi.keys hi.wildcard hmodules (lc.str modName)
  have hread : s.table.getApiHooks lc modName funcName =
      ((lookupKeys (lc.str modName) s.modules.keys).flatMap fun module =>
        (lookupKeys (lc.str funcName) (s.apiKeys module)).flatMap fun api =>
          s.registered.filter fun h => decide ((h.module, h.apiName) = (module, api))).filter
        s.table.enabled := by
    rw [← hlookup]
    unfold getApiHooks modules wildcardModule
    cases s.table.api with
    | none => rfl
    | some p => rfl
  rw [hread, lookupGroups, List.flatMap_assoc, List.filter_flatMap]
  refine List.flatMap_congr fun module hmod => ?_
  rw [List.filter_flatMap, List.flatMap_map]
  refine List.flatMap_congr fun api hapi => ?_
  rw [matching, List.filter_filter, List.filter_filter]
  refine List.filter_congr fun h _ => ?_
  by_cases hg : (h.module, h.apiName) = (module, api)
  · obtain ⟨rfl, rfl⟩ := Prod.mk.inj hg
    simp [(mem_lookupKeys.mp hmod).2, (mem_lookupKeys.mp hapi).2]
  · simp [hg]

theorem getApiHooks_eq_iff (hi : Inv s) (lc : LowerCase) (modName funcName : PyStr) :
    s.table.getApiHooks lc modName funcName = s.matching lc modName funcName ↔
      (s.matching lc modName funcName).Pairwise fun h h' =>
        s.groupRank lc modName funcName (h.module, h.apiName) ≤
          s.groupRank lc modName funcName (h'.module, h'.apiName) := by
  rw [getApiHooks_groups hi]
  refine GroupedLists.groups_eq_iff (lookupGroups_sorted hi lc modName funcName) fun h hin => ?_
  obtain ⟨hreg, hmatch⟩ := List.mem_filter.mp hin
  simp only [Bool.and_eq_true, decide_eq_true_eq] at hmatch
  exact mem_lookupGroups hi hreg hmatch.2.1 hmatch.2.2

theorem hookLaw_iff (hi : Inv s) (lc : LowerCase) (modName funcName : PyStr) :
    s.HookLaw lc modName funcName ↔ s.AddedInLookupOrder lc modName funcName := by
  constructor
  · intro h
    exact ⟨h.hooks ▸ h.once, (getApiHooks_eq_iff hi lc modName funcName).mp h.hooks⟩
  · intro h
    have hooks := (getApiHooks_eq_iff hi lc modName funcName).mpr h.order
    exact ⟨hooks, hooks ▸ h.once, by rw [hooks, handledHook]⟩

/-- A lookup gives the hooks that match in the order of `add_hook` exactly when it comes to their
groups in that order. -/
theorem run_hookLaw_iff (lc : LowerCase) (ops : List ApiHookOp) (modName funcName : PyStr) :
    (FoldRuns.run step init ops).HookLaw lc modName funcName ↔
      (FoldRuns.run step init ops).AddedInLookupOrder lc modName funcName :=
  hookLaw_iff (FoldRuns.run_of_step inv_step inv_init ops) lc modName funcName

/-- A hook of one function, added after a hook of all functions. -/
def wildcardFirst : List ApiHookOp :=
  [.addHook (ApiHook.init asciiLower 0 "*".toList "*".toList),
    .addHook (ApiHook.init asciiLower 1 "kernel32".toList "Sleep".toList)]

/-- The hook added last is not the last one of the lookup. -/
theorem run_not_hookLaw :
    ¬(FoldRuns.run step init wildcardFirst).HookLaw asciiLower "kernel32".toList "Sleep".toList := by
  intro h
  exact absurd h.last (by decide)

end ApiHookHistory

end Speakeasy
