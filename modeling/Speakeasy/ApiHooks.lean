import Speakeasy.Glob
import Speakeasy.OrderedDict
import Speakeasy.RegistryPaths
import Speakeasy.FoldRuns
import Speakeasy.GroupedLists
import Mathlib.Data.Prod.Lex

namespace Speakeasy

/-- An API hook. Two hooks with the same names differ in `id`. -/
structure ApiHook where
  id : Nat
  module : PyStr
  apiName : PyStr
deriving DecidableEq

/-- The names that `ApiHook.__init__` keeps. -/
def ApiHook.init (lc : LowerCase) (id : Nat) (module apiName : PyStr) : ApiHook :=
  ⟨id, lc.str module, lc.str apiName⟩

def hasWildcard (pat : PyStr) : Bool := ['?', '*', '[', ']'].any fun wc => pat.contains wc

structure ModuleHooks where
  hooks : OrderedDict PyStr (List ApiHook)
  wildcardApi : Bool

/-- The API hooks of an emulator: `self.hooks[HOOK_API]`, if it has the key, and the flags of the
hooks. -/
structure ApiHookTable where
  api : Option (OrderedDict PyStr ModuleHooks × Bool)
  enabled : ApiHook → Bool

namespace ApiHookTable

/-- No hook is added yet. A new hook is enabled. -/
def init : ApiHookTable := ⟨none, fun _ => true⟩

/-- The lists of hooks of one module that an API name finds. -/
def moduleHooks (funcName : PyStr) (m : ModuleHooks) : List ApiHook :=
  (m.hooks.get? funcName).getD [] ++
    if m.wildcardApi then
      (m.hooks.entries.filter fun e => fnmatch funcName e.1 && decide (funcName ≠ e.1)).flatMap
        fun e => e.2
    else []

def getApiHooks (lc : LowerCase) (s : ApiHookTable) (modName funcName : PyStr) : List ApiHook :=
  let modName := lc.str modName
  let funcName := lc.str funcName
  match s.api with
  | none => []
  | some (hookStruct, wildcardModule) =>
    let userHooks := (hookStruct.get? modName).toList.flatMap (moduleHooks funcName) ++
      if wildcardModule then
        (hookStruct.entries.filter fun e => fnmatch modName e.1 && decide (modName ≠ e.1)).flatMap
          fun e => moduleHooks funcName e.2
      else []
    userHooks.filter s.enabled

/-- The hook that `_handle_api_hook` runs, of those that `get_api_hooks` gives. -/
def handledHook (hooks : List ApiHook) : Option ApiHook := hooks.getLast?

def addApiHook (s : ApiHookTable) (hook : ApiHook) : ApiHookTable :=
  let wildcardModule := hasWildcard hook.module
  let wildcardApi := hasWildcard hook.apiName
  let new : ModuleHooks := ⟨OrderedDict.empty.insert hook.apiName [hook], wildcardApi⟩
  match s.api with
  | none => { s with api := some (OrderedDict.empty.insert hook.module new, wildcardModule) }
  | some (modules, previousModule) =>
    let modules := match modules.get? hook.module with
      | none => modules.insert hook.module new
      | some m =>
        let hooks := m.hooks.insert hook.apiName ((m.hooks.get? hook.apiName).getD [] ++ [hook])
        modules.insert hook.module ⟨hooks, m.wildcardApi || wildcardApi⟩
    { s with api := some (modules, previousModule || wildcardModule) }

def setEnabled (s : ApiHookTable) (hook : ApiHook) (flag : Bool) : ApiHookTable :=
  { s with enabled := fun h => if h = hook then flag else s.enabled h }

/-- `remove_hook`. `none` is its `ValueError`. -/
def removeHook (s : ApiHookTable) (hook : ApiHook) : Option ApiHookTable :=
  match s.api with
  | none => none
  | some (modules, wildcardModule) =>
    match modules.get? hook.module with
    | none => none
    | some m =>
      match m.hooks.get? hook.apiName with
      | none => none
      | some hooks =>
        if hook ∈ hooks then
          let hooks := m.hooks.insert hook.apiName (hooks.erase hook)
          let modules := modules.insert hook.module ⟨hooks, m.wildcardApi⟩
          some (ApiHookTable.setEnabled ⟨some (modules, wildcardModule), s.enabled⟩ hook false)
        else none

end ApiHookTable

section

open ApiHookTable OrderedDict

inductive ApiHookOp
  | addHook (hook : ApiHook)
  | removeHook (hook : ApiHook)
  | enable (hook : ApiHook)
  | disable (hook : ApiHook)

/-- The hooks of an emulator beside the calls of `add_hook`, all of them and those that no
`remove_hook` took back, in their order. -/
structure ApiHookHistory where
  table : ApiHookTable
  adds : List ApiHook
  registered : List ApiHook

/-- A name and a pattern, both in lower case. -/
def NameMatches (name pat : PyStr) : Prop := name = pat ∨ fnmatch name pat = true

instance (name pat : PyStr) : Decidable (NameMatches name pat) := inferInstanceAs (Decidable (_ ∨ _))

/-- When a lookup of a name comes to a key: at first to the name itself, then to the patterns in the
order of their first use. -/
def lookupRank (uses : List PyStr) (name key : PyStr) : Nat :=
  if key = name then 0 else firstUse uses key + 1

namespace ApiHookHistory

def init : ApiHookHistory := ⟨ApiHookTable.init, [], []⟩

def step (s : ApiHookHistory) (op : ApiHookOp) : ApiHookHistory :=
  match op with
  | .addHook hook =>
    ⟨s.table.addApiHook hook, s.adds ++ [hook], s.registered ++ [hook]⟩
  | .removeHook hook =>
    match s.table.removeHook hook with
    | none => s
    | some table => ⟨table, s.adds, s.registered.erase hook⟩
  | .enable hook => { s with table := s.table.setEnabled hook true }
  | .disable hook => { s with table := s.table.setEnabled hook false }

def moduleUses (s : ApiHookHistory) : List PyStr := s.adds.map ApiHook.module

def apiUses (s : ApiHookHistory) (module : PyStr) : List PyStr :=
  (s.adds.filter fun h => decide (h.module = module)).map ApiHook.apiName

/-- The registered and enabled hooks that match two names, in the order of `add_hook`. -/
def matching (lc : LowerCase) (s : ApiHookHistory) (modName funcName : PyStr) : List ApiHook :=
  s.registered.filter fun h => s.table.enabled h &&
    decide (NameMatches (lc.str modName) h.module ∧ NameMatches (lc.str funcName) h.apiName)

/-- When a lookup of two names comes to the hooks with the patterns of a hook. -/
def groupRank (lc : LowerCase) (s : ApiHookHistory) (modName funcName : PyStr)
    (patterns : PyStr × PyStr) : ℕ ×ₗ ℕ :=
  toLex (lookupRank s.moduleUses (lc.str modName) patterns.1,
    lookupRank (s.apiUses patterns.1) (lc.str funcName) patterns.2)

/-- What a lookup of API hooks owes to the caller that added them. -/
structure HookLaw (lc : LowerCase) (s : ApiHookHistory) (modName funcName : PyStr) : Prop where
  hooks : s.table.getApiHooks lc modName funcName = s.matching lc modName funcName
  once : (s.table.getApiHooks lc modName funcName).Nodup
  last : handledHook (s.table.getApiHooks lc modName funcName) =
    (s.matching lc modName funcName).getLast?

/-- The lookup comes to the hooks that match in the order in which they were added, and none of them
was added again before it was removed. -/
structure AddedInLookupOrder (lc : LowerCase) (s : ApiHookHistory) (modName funcName : PyStr) :
    Prop where
  once : (s.matching lc modName funcName).Nodup
  order : (s.matching lc modName funcName).Pairwise fun h h' =>
    s.groupRank lc modName funcName (h.module, h.apiName) ≤
      s.groupRank lc modName funcName (h'.module, h'.apiName)

/-- The hooks of one module pattern, as the history gives them. -/
structure ModuleInv (s : ApiHookHistory) (module : PyStr) (m : ModuleHooks) : Prop where
  keys : FirstUses m.hooks.keys (s.apiUses module)
  wildcard : m.wildcardApi = (s.apiUses module).any hasWildcard
  hooks : ∀ api hooks, m.hooks.get? api = some hooks →
    hooks = s.registered.filter fun h => decide ((h.module, h.apiName) = (module, api))

def modules (s : ApiHookHistory) : OrderedDict PyStr ModuleHooks :=
  (s.table.api.map Prod.fst).getD OrderedDict.empty

def wildcardModule (s : ApiHookHistory) : Bool := (s.table.api.map Prod.snd).getD false

structure Inv (s : ApiHookHistory) : Prop where
  keys : FirstUses s.modules.keys s.moduleUses
  wildcard : s.wildcardModule = s.moduleUses.any hasWildcard
  modules : ∀ module m, s.modules.get? module = some m → s.ModuleInv module m
  registered : ∀ h ∈ s.registered, h ∈ s.adds

theorem inv_init : Inv init where
  keys := FirstUses.nil
  wildcard := rfl
  modules module m h := by cases h
  registered h hin := by cases hin

/-- What the table of a module becomes with one more hook. -/
def withHook (m : Option ModuleHooks) (hook : ApiHook) : ModuleHooks :=
  match m with
  | none => ⟨OrderedDict.empty.insert hook.apiName [hook], hasWildcard hook.apiName⟩
  | some m =>
    ⟨m.hooks.insert hook.apiName ((m.hooks.get? hook.apiName).getD [] ++ [hook]),
      m.wildcardApi || hasWildcard hook.apiName⟩

theorem modules_addHook (s : ApiHookHistory) (hook : ApiHook) :
    (s.step (.addHook hook)).modules =
        s.modules.insert hook.module (withHook (s.modules.get? hook.module) hook) ∧
      (s.step (.addHook hook)).wildcardModule =
        (s.wildcardModule || hasWildcard hook.module) := by
  cases hapi : s.table.api with
  | none => simp [step, addApiHook, modules, wildcardModule, hapi, withHook]
  | some p =>
    cases hget : p.1.get? hook.module with
    | none => simp [step, addApiHook, modules, wildcardModule, hapi, hget, withHook]
    | some m => simp [step, addApiHook, modules, wildcardModule, hapi, hget, withHook]

theorem apiUses_addHook (s : ApiHookHistory) (hook : ApiHook) (module : PyStr) :
    (s.step (.addHook hook)).apiUses module =
      if module = hook.module then s.apiUses module ++ [hook.apiName] else s.apiUses module := by
  simp only [step, apiUses, List.filter_append, List.map_append]
  split
  next h => simp [h]
  next h => simp [Ne.symm h]

/-- A group of hooks whose patterns nothing used is empty. -/
theorem group_eq_nil {s : ApiHookHistory} (hi : Inv s) {module api : PyStr}
    (h : api ∉ s.apiUses module) :
    (s.registered.filter fun h => decide ((h.module, h.apiName) = (module, api))) = [] := by
  refine List.filter_eq_nil_iff.mpr fun x hx hgroup => h ?_
  simp only [decide_eq_true_eq, Prod.mk.injEq] at hgroup
  refine List.mem_map.mpr ⟨x, List.mem_filter.mpr ⟨hi.registered x hx, ?_⟩, hgroup.2⟩
  simpa using hgroup.1

theorem group_addHook_self (s : ApiHookHistory) (hook : ApiHook) :
    ((s.registered ++ [hook]).filter fun h =>
        decide ((h.module, h.apiName) = (hook.module, hook.apiName))) =
      (s.registered.filter fun h =>
        decide ((h.module, h.apiName) = (hook.module, hook.apiName))) ++ [hook] := by
  simp [List.filter_append]

theorem group_addHook_other (s : ApiHookHistory) {hook : ApiHook} {module api : PyStr}
    (hne : (module, api) ≠ (hook.module, hook.apiName)) :
    ((s.registered ++ [hook]).filter fun h => decide ((h.module, h.apiName) = (module, api))) =
      s.registered.filter fun h => decide ((h.module, h.apiName) = (module, api)) := by
  rw [List.filter_append, List.filter_cons_of_neg (by simpa using Ne.symm hne)]
  simp

theorem moduleInv_withHook {s : ApiHookHistory} (hi : Inv s) (hook : ApiHook) :
    (s.step (.addHook hook)).ModuleInv hook.module
      (withHook (s.modules.get? hook.module) hook) := by
  have huses := s.apiUses_addHook hook hook.module
  rw [if_pos rfl] at huses
  cases hget : s.modules.get? hook.module with
  | none =>
    have hnone : s.apiUses hook.module = [] := by
      have hout : hook.module ∉ s.moduleUses := fun hin =>
        get?_eq_none.mp hget ((hi.keys.mem _).mpr hin)
      refine List.map_eq_nil_iff.mpr (List.filter_eq_nil_iff.mpr fun x hx hmod => hout ?_)
      exact List.mem_map.mpr ⟨x, hx, by simpa using hmod⟩
    rw [hnone] at huses
    refine ⟨?_, ?_, fun api hooks h => ?_⟩
    · rw [huses]
      exact FirstUses.insert (d := OrderedDict.empty) FirstUses.nil _ _
    · rw [huses]
      simp [withHook]
    · simp only [withHook, get?_insert, get?_empty] at h
      split at h
      next heq =>
        subst heq
        obtain rfl := Option.some.inj h
        have hgroup := group_eq_nil hi (hnone ▸ List.not_mem_nil : hook.apiName ∉ s.apiUses hook.module)
        have hself := s.group_addHook_self hook
        rw [hgroup] at hself
        exact hself.symm
      next => cases h
  | some m =>
    have hm := hi.modules _ m hget
    refine ⟨?_, ?_, fun api hooks h => ?_⟩
    · rw [huses]
      exact hm.keys.insert _ _
    · rw [huses, List.any_append, ← hm.wildcard]
      simp [withHook]
    · simp only [withHook, get?_insert] at h
      split at h
      next heq =>
        subst heq
        obtain rfl := Option.some.inj h
        have hold : (m.hooks.get? hook.apiName).getD [] = s.registered.filter fun h =>
            decide ((h.module, h.apiName) = (hook.module, hook.apiName)) := by
          cases hhooks : m.hooks.get? hook.apiName with
          | none =>
            have hout : hook.apiName ∉ s.apiUses hook.module := fun hin =>
              get?_eq_none.mp hhooks ((hm.keys.mem _).mpr hin)
            exact (group_eq_nil hi hout).symm
          | some hooks => exact hm.hooks _ _ hhooks
        rw [hold]
        exact (s.group_addHook_self hook).symm
      next hne =>
        rw [hm.hooks api hooks h]
        exact (s.group_addHook_other fun heq => hne (congrArg Prod.snd heq)).symm

theorem inv_addHook {s : ApiHookHistory} (hi : Inv s) (hook : ApiHook) :
    Inv (s.step (.addHook hook)) := by
  obtain ⟨hmodules, hwild⟩ := s.modules_addHook hook
  have huses : (s.step (.addHook hook)).moduleUses = s.moduleUses ++ [hook.module] := by
    simp [step, moduleUses]
  refine ⟨?_, ?_, fun module m hget => ?_, fun h hin => ?_⟩
  · rw [hmodules, huses]
    exact hi.keys.insert _ _
  · rw [hwild, huses, hi.wildcard, List.any_append]
    simp
  · rw [hmodules, get?_insert] at hget
    split at hget
    next heq =>
      subst heq
      obtain rfl := Option.some.inj hget
      exact moduleInv_withHook hi hook
    next hne =>
      have hm := hi.modules module m hget
      have hapis := s.apiUses_addHook hook module
      rw [if_neg hne] at hapis
      refine ⟨hapis ▸ hm.keys, hapis ▸ hm.wildcard, fun api hooks h => ?_⟩
      rw [hm.hooks api hooks h]
      exact (s.group_addHook_other fun heq => hne (congrArg Prod.fst heq)).symm
  · rcases List.mem_append.mp hin with hin | hin
    · exact List.mem_append_left _ (hi.registered h hin)
    · exact List.mem_append_right _ hin

theorem removeHook_cases {s : ApiHookHistory} {hook : ApiHook} {table : ApiHookTable}
    (h : s.table.removeHook hook = some table) :
    ∃ m hooks, s.modules.get? hook.module = some m ∧ m.hooks.get? hook.apiName = some hooks ∧
      (s.step (.removeHook hook)).modules = s.modules.insert hook.module
        ⟨m.hooks.insert hook.apiName (hooks.erase hook), m.wildcardApi⟩ ∧
      (s.step (.removeHook hook)).wildcardModule = s.wildcardModule ∧
      (s.step (.removeHook hook)).adds = s.adds ∧
      (s.step (.removeHook hook)).registered = s.registered.erase hook := by
  have hstep : s.step (.removeHook hook) = ⟨table, s.adds, s.registered.erase hook⟩ := by
    simp only [step, h]
  rw [hstep]
  unfold removeHook at h
  cases hapi : s.table.api with
  | none => simp [hapi] at h
  | some p =>
    simp only [hapi] at h
    cases hget : p.1.get? hook.module with
    | none => simp [hget] at h
    | some m =>
      simp only [hget] at h
      cases hhooks : m.hooks.get? hook.apiName with
      | none => simp [hhooks] at h
      | some hooks =>
        simp only [hhooks] at h
        split at h
        next =>
          obtain rfl := Option.some.inj h
          have hmodules : s.modules = p.1 := by simp [modules, hapi]
          have hwild : s.wildcardModule = p.2 := by simp [wildcardModule, hapi]
          rw [hmodules, hwild]
          exact ⟨m, hooks, hget, hhooks, rfl, rfl, rfl, rfl⟩
        next => cases h

theorem inv_removeHook {s : ApiHookHistory} (hi : Inv s) (hook : ApiHook) :
    Inv (s.step (.removeHook hook)) := by
  cases hremove : s.table.removeHook hook with
  | none =>
    have hsame : s.step (.removeHook hook) = s := by simp only [step, hremove]
    rwa [hsame]
  | some table =>
    obtain ⟨m, hooks, hget, hhooks, hmodules, hwild, hadds, hreg⟩ := removeHook_cases hremove
    generalize s.step (.removeHook hook) = s' at hmodules hwild hadds hreg ⊢
    have hm := hi.modules _ m hget
    have huses : s'.moduleUses = s.moduleUses := by rw [moduleUses, hadds, moduleUses]
    have hapis : ∀ module, s'.apiUses module = s.apiUses module := by
      intro module
      rw [apiUses, hadds, apiUses]
    have herase : ∀ module api, (s'.registered.filter fun h =>
        decide ((h.module, h.apiName) = (module, api))) =
        (s.registered.filter fun h => decide ((h.module, h.apiName) = (module, api))).erase hook := by
      intro module api
      rw [hreg, List.erase_filter]
    have hout : ∀ module api, (module, api) ≠ (hook.module, hook.apiName) →
        hook ∉ s.registered.filter fun h => decide ((h.module, h.apiName) = (module, api)) := by
      intro module api hne hin
      have heq : (hook.module, hook.apiName) = (module, api) := by
        simpa using (List.mem_filter.mp hin).2
      exact hne heq.symm
    refine ⟨?_, ?_, fun module m' hget' => ?_, fun h hin => ?_⟩
    · rw [hmodules, huses, keys_insert, if_pos (mem_keys_of_get? hget)]
      exact hi.keys
    · rw [hwild, huses, hi.wildcard]
    · rw [hmodules, get?_insert] at hget'
      split at hget'
      next heq =>
        subst heq
        obtain rfl := Option.some.inj hget'
        refine ⟨?_, ?_, fun api hooks' h => ?_⟩
        · rw [hapis, keys_insert, if_pos (mem_keys_of_get? hhooks)]
          exact hm.keys
        · rw [hapis]
          exact hm.wildcard
        · rw [get?_insert] at h
          rw [herase]
          split at h
          next heq =>
            subst heq
            obtain rfl := Option.some.inj h
            rw [hm.hooks _ _ hhooks]
          next hne =>
            rw [hm.hooks api hooks' h]
            exact (List.erase_of_not_mem
              (hout _ _ fun heq => hne (congrArg Prod.snd heq))).symm
      next hne =>
        have hm' := hi.modules module m' hget'
        refine ⟨hapis module ▸ hm'.keys, hapis module ▸ hm'.wildcard, fun api hooks' h => ?_⟩
        rw [herase, hm'.hooks api hooks' h]
        exact (List.erase_of_not_mem (hout _ _ fun heq => hne (congrArg Prod.fst heq))).symm
    · rw [hadds]
      rw [hreg] at hin
      exact hi.registered h (List.mem_of_mem_erase hin)

theorem inv_step (s : ApiHookHistory) (op : ApiHookOp) (hi : Inv s) : Inv (s.step op) := by
  cases op with
  | addHook hook => exact inv_addHook hi hook
  | removeHook hook => exact inv_removeHook hi hook
  | enable hook => exact ⟨hi.keys, hi.wildcard,
      fun module m h => ⟨(hi.modules module m h).keys, (hi.modules module m h).wildcard,
        (hi.modules module m h).hooks⟩, hi.registered⟩
  | disable hook => exact ⟨hi.keys, hi.wildcard,
      fun module m h => ⟨(hi.modules module m h).keys, (hi.modules module m h).wildcard,
        (hi.modules module m h).hooks⟩, hi.registered⟩

end ApiHookHistory

end

end Speakeasy
