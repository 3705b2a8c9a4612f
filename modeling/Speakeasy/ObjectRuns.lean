import Speakeasy.FoldRuns
import Speakeasy.ObjectManager

namespace Speakeasy

open ObjectManager

/-- A call on the object manager, a new kernel object, or a new address of one. -/
inductive ObjectOp
  | newObject (address : Option Nat) (name : PyStr)
  | setAddress (o : Nat) (address : Option Nat)
  | addObject (o : Nat)
  | removeObject (o : Nat)
  | decRef (o : Nat)

/-- The object manager beside what its callers know: the objects that were added and neither removed
nor counted down to 0 since, and those that were counted down to 0. -/
structure ObjectHistory where
  om : ObjectManager
  held : List Nat
  ended : List Nat

namespace ObjectHistory

def init (symlinks : List (PyStr × PyStr)) : ObjectHistory := ⟨ObjectManager.init symlinks, [], []⟩

def step (s : ObjectHistory) (op : ObjectOp) : ObjectHistory :=
  match op with
  | .newObject address name => { s with om := s.om.newObject address name }
  | .setAddress o address =>
    match s.om.heap[o]? with
    | none => s
    | some obj => { s with om := s.om.setObject o { obj with address := address } }
  | .addObject o =>
    match s.om.heap[o]? with
    | none => s
    | some _ =>
      { om := s.om.addObject o, held := o :: s.held, ended := s.ended.filter (· ≠ o) }
  | .removeObject o => { s with om := s.om.removeObject o, held := s.held.filter (· ≠ o) }
  | .decRef o =>
    match s.om.heap[o]? with
    | none => s
    | some obj =>
      if obj.refCnt - 1 ≤ 0 then
        { om := s.om.decRef o, held := s.held.filter (· ≠ o), ended := o :: s.ended }
      else { s with om := s.om.decRef o }

/-- What the object manager owes to its callers. -/
structure ObjectLaw (lc : LowerCase) (s : ObjectHistory) : Prop where
  found : ∀ o ∈ s.held, ∃ obj, s.om.heap[o]? = some obj ∧ s.om.getObjectFromId obj.id = some o
  gone : ∀ o ∈ s.ended, (∀ addr, s.om.getObjectFromAddr addr ≠ some o) ∧
    (∀ id, s.om.getObjectFromId id ≠ some o) ∧
    ∀ name checkSymlinks, s.om.getObjectFromName lc name checkSymlinks ≠ some o

/-- An object is added under an address that is free, or it is in the table already, and an object
whose count ends is in the table under one address that is neither missing nor 0, or not at all. -/
def SafeCall (s : ObjectHistory) (op : ObjectOp) : Prop :=
  match op with
  | .addObject o => ∀ obj, s.om.heap[o]? = some obj →
      s.om.Stores o ∨ s.om.getObjectFromAddr obj.address = none
  | .decRef o => ∀ obj, s.om.heap[o]? = some obj → obj.refCnt - 1 ≤ 0 →
      ∀ addr, (addr, o) ∈ s.om.objects.entries →
        addr ≠ none ∧ addr ≠ some 0 ∧ ∀ other, (other, o) ∈ s.om.objects.entries → other = addr
  | _ => True

/-- The law about the table alone. -/
structure Kept (s : ObjectHistory) : Prop where
  held : ∀ o ∈ s.held, s.om.Stores o
  ended : ∀ o ∈ s.ended, ¬s.om.Stores o

theorem objectLaw_iff {lc : LowerCase} {s : ObjectHistory} (hi : s.om.Inv) :
    ObjectLaw lc s ↔ Kept s := by
  have hget : ∀ {o}, o < s.om.heap.length → ∃ obj, s.om.heap[o]? = some obj := fun h =>
    ⟨_, List.getElem?_eq_getElem h⟩
  constructor
  · intro h
    refine ⟨fun o ho => ?_, fun o ho hs => ?_⟩
    · obtain ⟨obj, _, hfound⟩ := h.found o ho
      exact getObjectFromId_stores hfound
    · obtain ⟨obj, hobj⟩ := hget (hi.stored o hs)
      exact (h.gone o ho).2.1 obj.id ((getObjectFromId_iff hi.nodup hobj).mpr hs)
  · intro h
    refine ⟨fun o ho => ?_, fun o ho => ?_⟩
    · obtain ⟨obj, hobj⟩ := hget (hi.stored o (h.held o ho))
      exact ⟨obj, hobj, (getObjectFromId_iff hi.nodup hobj).mpr (h.held o ho)⟩
    · have hgone := h.ended o ho
      exact ⟨fun addr hf => hgone ⟨addr, OrderedDict.get?_eq_some.mp hf⟩,
        fun id hf => hgone (getObjectFromId_stores hf),
        fun name check hf => hgone (getObjectFromName_stores hf)⟩

theorem inv_step {s : ObjectHistory} (hi : s.om.Inv) (op : ObjectOp) : (s.step op).om.Inv := by
  cases op with
  | newObject address name => exact inv_newObject hi address name
  | setAddress o address =>
    simp only [step]
    split
    next => exact hi
    next obj ho => exact inv_setObject hi ho rfl
  | addObject o =>
    simp only [step]
    split
    next => exact hi
    next => exact inv_addObject hi o
  | removeObject o => exact inv_removeObject hi o
  | decRef o =>
    simp only [step]
    split
    next => exact hi
    next =>
      split
      next => exact inv_decRef hi o
      next => exact inv_decRef hi o

theorem kept_addObject {s : ObjectHistory} {o : Nat} {obj : KernelObject} (hi : s.om.Inv)
    (hk : Kept s) (ho : s.om.heap[o]? = some obj) :
    Kept ⟨s.om.addObject o, o :: s.held, s.ended.filter (· ≠ o)⟩ ↔
      s.om.Stores o ∨ s.om.getObjectFromAddr obj.address = none := by
  have hstores := (addObject_spec ho (hi.id_pos obj (List.mem_of_getElem? ho))).2.2
  constructor
  · intro h
    rcases (hstores o).mp (h.held o List.mem_cons_self) with hs | hs
    · exact Or.inl hs
    · exact Or.inr hs.2
  · intro h
    refine ⟨fun x hx => (hstores x).mpr ?_, fun x hx hs => ?_⟩
    · rcases List.mem_cons.mp hx with rfl | hx
      · rcases h with h | h
        · exact Or.inl h
        · exact Or.inr ⟨rfl, h⟩
      · exact Or.inl (hk.held x hx)
    · simp only [List.mem_filter, decide_eq_true_eq] at hx
      rcases (hstores x).mp hs with hs | hs
      · exact hk.ended x hx.1 hs
      · exact hx.2 hs.1

theorem kept_removeObject {s : ObjectHistory} (hk : Kept s) (o : Nat) :
    Kept { s with om := s.om.removeObject o, held := s.held.filter (· ≠ o) } := by
  refine ⟨fun x hx => ?_, fun x hx hs => ?_⟩
  · simp only [List.mem_filter, decide_eq_true_eq] at hx
    exact (removeObject_stores hx.2).mpr (hk.held x hx.1)
  · rcases s.om.removeObject_cases o with ⟨addr, _, h⟩ | ⟨h, _⟩
    · simp only [h] at hs
      obtain ⟨key, hkey⟩ := hs
      exact hk.ended x hx ⟨key, (OrderedDict.mem_pop.mp hkey).1⟩
    · simp only [h] at hs
      exact hk.ended x hx hs

theorem kept_decRef {s : ObjectHistory} {o : Nat} {obj : KernelObject} (hk : Kept s)
    (ho : s.om.heap[o]? = some obj) (hend : obj.refCnt - 1 ≤ 0) :
    Kept ⟨s.om.decRef o, s.held.filter (· ≠ o), o :: s.ended⟩ ↔
      ¬(s.om.decRef o).Stores o := by
  rw [decRef_eq ho, if_pos hend]
  constructor
  · intro h
    exact h.ended o List.mem_cons_self
  · intro h
    refine ⟨fun x hx => ?_, fun x hx hs => ?_⟩
    · simp only [List.mem_filter, decide_eq_true_eq] at hx
      exact (removeObject_stores hx.2).mpr (hk.held x hx.1)
    · by_cases hxo : x = o
      · exact h (hxo ▸ hs)
      · have hs := (removeObject_stores hxo).mp hs
        exact hk.ended x ((List.mem_cons.mp hx).resolve_left hxo) hs

theorem kept_step {s : ObjectHistory} (hi : s.om.Inv) (hk : Kept s) (op : ObjectOp) :
    Kept (s.step op) ↔ SafeCall s op := by
  cases op with
  | newObject address name => exact iff_of_true ⟨hk.held, hk.ended⟩ trivial
  | setAddress o address =>
    refine iff_of_true ?_ trivial
    simp only [step]
    split
    next => exact hk
    next => exact ⟨hk.held, hk.ended⟩
  | addObject o =>
    simp only [step, SafeCall]
    split
    next hnone => exact iff_of_true hk (by simp [hnone])
    next obj ho =>
      rw [kept_addObject hi hk ho]
      simp [ho]
  | removeObject o => exact iff_of_true (kept_removeObject hk o) trivial
  | decRef o =>
    simp only [step, SafeCall]
    split
    next hnone => exact iff_of_true hk (by simp [hnone])
    next obj ho =>
      split
      next hend =>
        rw [kept_decRef hk ho hend, decRef_eq ho, if_pos hend, removeObject_gone_iff]
        constructor
        · intro h obj' hobj' _
          exact h
        · intro h
          exact h obj ho hend
      next hend =>
        refine iff_of_true ⟨?_, ?_⟩ ?_
        · rw [decRef_eq ho, if_neg hend]
          exact hk.held
        · rw [decRef_eq ho, if_neg hend]
          exact hk.ended
        · intro obj' hobj' hend'
          rw [ho] at hobj'
          cases hobj'
          exact absurd hend' hend

/-- The law holds in every state of a run exactly when every call of it is safe. -/
theorem run_objectLaw_iff (lc : LowerCase) (symlinks : List (PyStr × PyStr))
    (ops : List ObjectOp) :
    FoldRuns.Always step (ObjectLaw lc) (init symlinks) ops ↔
      FoldRuns.EachStep step SafeCall (init symlinks) ops := by
  have hstep : ∀ s op, s.om.Inv → ObjectLaw lc s → (ObjectLaw lc (s.step op) ↔ SafeCall s op) := by
    intro s op hi hlaw
    rw [objectLaw_iff (inv_step hi op)]
    exact kept_step hi ((objectLaw_iff hi).mp hlaw) op
  have hinit : ObjectLaw lc (init symlinks) :=
    ⟨fun o ho => by simp [init] at ho, fun o ho => by simp [init] at ho⟩
  exact FoldRuns.always_iff_eachStep (fun s op hi => inv_step hi op) hstep (ObjectManager.inv_init symlinks)
    hinit ops

/-- Two objects with no address, such as the tokens of two processes. -/
def twoTokens : List ObjectOp :=
  [.newObject none [], .newObject none [], .addObject 0, .addObject 1]

/-- The second one is held and not found. -/
theorem run_not_objectLaw :
    ¬FoldRuns.Always step (ObjectLaw asciiLower) (init []) twoTokens := by
  intro h
  obtain ⟨obj, hobj, hfound⟩ := (h twoTokens (List.prefix_refl _)).found 1 (by decide)
  have hid : obj.id = 0x404 := by
    have hheap : (FoldRuns.run step (init []) twoTokens).om.heap[1]? = some ⟨none, [], 1, 0x404⟩ := by
      rfl
    rw [hheap] at hobj
    exact congrArg KernelObject.id (Option.some.inj hobj).symm
  rw [hid] at hfound
  exact absurd hfound (by decide)

end ObjectHistory

end Speakeasy
