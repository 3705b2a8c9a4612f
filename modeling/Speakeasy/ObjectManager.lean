import Speakeasy.OrderedDict
import Speakeasy.RegistryPaths

namespace Speakeasy

/-- A kernel object. Its `id` is 0 until it has one. -/
structure KernelObject where
  address : Option Nat
  name : PyStr
  refCnt : Int
  id : Nat

/-- The kernel objects of a run are the positions of `heap`: an object keeps its identity. -/
structure ObjectManager where
  heap : List KernelObject
  objects : OrderedDict (Option Nat) Nat
  symlinks : List (PyStr × PyStr)
  kernelObjectId : Nat

namespace ObjectManager

def init (symlinks : List (PyStr × PyStr)) : ObjectManager where
  heap := []
  objects := OrderedDict.empty
  symlinks := symlinks
  kernelObjectId := 0x400

def setObject (s : ObjectManager) (o : Nat) (obj : KernelObject) : ObjectManager :=
  { s with heap := s.heap.set o obj }

/-- `KernelObject.__init__`, and the address that the constructor of the class maps, if it does. -/
def newObject (s : ObjectManager) (address : Option Nat) (name : PyStr) : ObjectManager :=
  { s with
    heap := s.heap ++ [⟨address, name, 0, s.kernelObjectId⟩]
    kernelObjectId := s.kernelObjectId + 4 }

def getObjectFromAddr (s : ObjectManager) (addr : Option Nat) : Option Nat := s.objects.get? addr

def getObjectFromId (s : ObjectManager) (id : Nat) : Option Nat :=
  (s.objects.entries.map Prod.snd).find? fun o => decide ((s.heap[o]?).map KernelObject.id = some id)

/-- The loop of `get_object_from_name` over the objects. -/
def findName (lc : LowerCase) (s : ObjectManager) (name : PyStr) : Option Nat :=
  (s.objects.entries.map Prod.snd).find? fun o =>
    match s.heap[o]? with
    | some obj => decide (obj.name ≠ [] ∧ lc.str obj.name = lc.str name)
    | none => false

def getObjectFromName (lc : LowerCase) (s : ObjectManager) (name : PyStr) (checkSymlinks : Bool) :
    Option Nat :=
  if name = [] then none
  else
    let name := rstripSep name
    match findName lc s name with
    | some o => some o
    | none =>
      if checkSymlinks then
        let link := s.symlinks.find? fun sl => decide (lc.str name = lc.str sl.1)
        let name := (link.map Prod.snd).getD name
        if name = [] then none else findName lc s (rstripSep name)
      else none

def addObject (s : ObjectManager) (o : Nat) : ObjectManager :=
  match s.heap[o]? with
  | none => s
  | some obj =>
    let objects :=
      if s.objects.get? obj.address = none then s.objects.insert obj.address o else s.objects
    let s := { s with objects := objects }
    if obj.id = 0 then
      { s.setObject o { obj with id := s.kernelObjectId, refCnt := obj.refCnt + 1 } with
        kernelObjectId := s.kernelObjectId + 4 }
    else s.setObject o { obj with refCnt := obj.refCnt + 1 }

/-- `if addr:` leaves out the address 0 as well as the missing one. -/
def removeObject (s : ObjectManager) (o : Nat) : ObjectManager :=
  match s.objects.entries.find? fun e => decide (e.2 = o) with
  | some (some (addr + 1), _) => { s with objects := s.objects.pop (some (addr + 1)) }
  | _ => s

def decRef (s : ObjectManager) (o : Nat) : ObjectManager :=
  match s.heap[o]? with
  | none => s
  | some obj =>
    let s := s.setObject o { obj with refCnt := obj.refCnt - 1 }
    if obj.refCnt - 1 ≤ 0 then s.removeObject o else s

/-- The table has an object, under some address. -/
def Stores (s : ObjectManager) (o : Nat) : Prop := ∃ addr, (addr, o) ∈ s.objects.entries

theorem stores_iff {s : ObjectManager} {o : Nat} :
    s.Stores o ↔ o ∈ s.objects.entries.map Prod.snd := by
  simp [Stores]

/-- The objects in the table exist, and their ids tell them apart. -/
structure Inv (s : ObjectManager) : Prop where
  stored : ∀ o, s.Stores o → o < s.heap.length
  id_pos : ∀ obj ∈ s.heap, 0 < obj.id
  id_lt : ∀ obj ∈ s.heap, obj.id < s.kernelObjectId
  next_pos : 0 < s.kernelObjectId
  nodup : (s.heap.map KernelObject.id).Nodup

@[simp] theorem setObject_objects (s : ObjectManager) (o : Nat) (obj : KernelObject) :
    (s.setObject o obj).objects = s.objects := rfl

theorem removeObject_cases (s : ObjectManager) (o : Nat) :
    (∃ addr, (some (addr + 1), o) ∈ s.objects.entries ∧
        s.removeObject o = { s with objects := s.objects.pop (some (addr + 1)) }) ∨
      (s.removeObject o = s ∧
        (s.Stores o → (none, o) ∈ s.objects.entries ∨ (some 0, o) ∈ s.objects.entries)) := by
  unfold removeObject
  cases h : s.objects.entries.find? fun e => decide (e.2 = o) with
  | none =>
    refine Or.inr ⟨rfl, fun hs => ?_⟩
    obtain ⟨addr, hin⟩ := hs
    have := List.find?_eq_none.mp h _ hin
    simp at this
  | some e =>
    have hin := List.mem_of_find?_eq_some h
    have ho : e.2 = o := by simpa using List.find?_some h
    obtain ⟨key, x⟩ := e
    subst ho
    match key with
    | none => exact Or.inr ⟨rfl, fun _ => Or.inl hin⟩
    | some 0 => exact Or.inr ⟨rfl, fun _ => Or.inr hin⟩
    | some (addr + 1) => exact Or.inl ⟨addr, hin, rfl⟩

theorem removeObject_heap (s : ObjectManager) (o : Nat) :
    (s.removeObject o).heap = s.heap ∧ (s.removeObject o).kernelObjectId = s.kernelObjectId := by
  rcases s.removeObject_cases o with ⟨addr, _, h⟩ | ⟨h, _⟩
  · rw [h]
    exact ⟨rfl, rfl⟩
  · rw [h]
    exact ⟨rfl, rfl⟩

/-- The other objects stay in the table. -/
theorem removeObject_stores {s : ObjectManager} {o x : Nat} (hx : x ≠ o) :
    (s.removeObject o).Stores x ↔ s.Stores x := by
  rcases s.removeObject_cases o with ⟨addr, hin, h⟩ | ⟨h, _⟩
  · rw [h]
    constructor
    · rintro ⟨key, hkey⟩
      exact ⟨key, (OrderedDict.mem_pop.mp hkey).1⟩
    · rintro ⟨key, hkey⟩
      refine ⟨key, OrderedDict.mem_pop.mpr ⟨hkey, fun heq => hx ?_⟩⟩
      exact OrderedDict.eq_of_key hin ((show key = _ from heq) ▸ hkey)
  · rw [h]

theorem removeObject_gone_iff {s : ObjectManager} {o : Nat} :
    ¬(s.removeObject o).Stores o ↔ ∀ addr, (addr, o) ∈ s.objects.entries →
      addr ≠ none ∧ addr ≠ some 0 ∧ ∀ other, (other, o) ∈ s.objects.entries → other = addr := by
  rcases s.removeObject_cases o with ⟨key, hin, h⟩ | ⟨h, hkey⟩
  · rw [h]
    constructor
    · intro hgone addr haddr
      have honly : ∀ other, (other, o) ∈ s.objects.entries → other = some (key + 1) := by
        intro other hother
        by_contra hne
        exact hgone ⟨other, OrderedDict.mem_pop.mpr ⟨hother, hne⟩⟩
      rw [honly addr haddr]
      exact ⟨by simp, by simp, honly⟩
    · rintro hall ⟨addr, haddr⟩
      obtain ⟨haddr, hne⟩ := OrderedDict.mem_pop.mp haddr
      exact hne ((hall _ hin).2.2 addr haddr)
  · rw [h]
    constructor
    · intro hgone addr haddr
      exact absurd ⟨addr, haddr⟩ hgone
    · rintro hall ⟨addr, haddr⟩
      rcases hkey ⟨addr, haddr⟩ with hnone | hzero
      · exact (hall _ hnone).1 rfl
      · exact (hall _ hzero).2.1 rfl

theorem addObject_spec {s : ObjectManager} {o : Nat} {obj : KernelObject}
    (h : s.heap[o]? = some obj) (hid : 0 < obj.id) :
    (s.addObject o).heap = s.heap.set o { obj with refCnt := obj.refCnt + 1 } ∧
      (s.addObject o).kernelObjectId = s.kernelObjectId ∧
      ∀ x, (s.addObject o).Stores x ↔
        s.Stores x ∨ (x = o ∧ s.getObjectFromAddr obj.address = none) := by
  have hid : obj.id ≠ 0 := by omega
  simp only [addObject, h, if_neg hid, setObject]
  refine ⟨trivial, trivial, fun x => ?_⟩
  split
  next hfree =>
    simp only [Stores, OrderedDict.mem_insert_new hfree, getObjectFromAddr, hfree, and_true,
      exists_or, Prod.mk.injEq, exists_eq_left]
  next htaken => simp [Stores, getObjectFromAddr, htaken]

theorem getObjectFromId_stores {s : ObjectManager} {id o : Nat} (h : s.getObjectFromId id = some o) :
    s.Stores o := stores_iff.mpr (List.mem_of_find?_eq_some h)

theorem findName_stores {lc : LowerCase} {s : ObjectManager} {name : PyStr} {o : Nat}
    (h : s.findName lc name = some o) : s.Stores o :=
  stores_iff.mpr (List.mem_of_find?_eq_some h)

theorem getObjectFromName_stores {lc : LowerCase} {s : ObjectManager} {name : PyStr}
    {checkSymlinks : Bool} {o : Nat} (h : s.getObjectFromName lc name checkSymlinks = some o) :
    s.Stores o := by
  unfold getObjectFromName at h
  split at h
  next => cases h
  next =>
    simp only at h
    split at h
    next x hx =>
      cases h
      exact findName_stores hx
    next =>
      split at h
      next =>
        split at h
        next => cases h
        next => exact findName_stores h
      next => cases h

/-- An object with an id of its own is found with it exactly when the table has the object. -/
theorem getObjectFromId_iff {s : ObjectManager} {o : Nat} {obj : KernelObject}
    (hnodup : (s.heap.map KernelObject.id).Nodup) (h : s.heap[o]? = some obj) :
    s.getObjectFromId obj.id = some o ↔ s.Stores o := by
  constructor
  · exact getObjectFromId_stores
  · intro hs
    have hfind : (s.getObjectFromId obj.id).isSome := by
      refine List.find?_isSome.mpr ⟨o, stores_iff.mp hs, ?_⟩
      simp [h]
    obtain ⟨x, hx⟩ := Option.isSome_iff_exists.mp hfind
    have hid : (s.heap[x]?).map KernelObject.id = some obj.id := by
      simpa using List.find?_some hx
    have hobj : (s.heap[o]?).map KernelObject.id = some obj.id := by rw [h]; rfl
    rw [← List.getElem?_map] at hid hobj
    have hlt : x < (s.heap.map KernelObject.id).length := (List.getElem?_eq_some_iff.mp hid).1
    have heq := (List.getElem?_inj hlt hnodup).mp (hid.trans hobj.symm)
    rw [hx, heq]

theorem inv_init (symlinks : List (PyStr × PyStr)) : Inv (init symlinks) where
  stored o ho := by
    obtain ⟨addr, h⟩ := ho
    simp [init, OrderedDict.empty] at h
  id_pos := by simp [init]
  id_lt := by simp [init]
  next_pos := by simp [init]
  nodup := by simp [init]

theorem inv_newObject {s : ObjectManager} (hi : s.Inv) (address : Option Nat) (name : PyStr) :
    (s.newObject address name).Inv := by
  have hmem : ∀ {x}, x ∈ (s.newObject address name).heap →
      x ∈ s.heap ∨ x.id = s.kernelObjectId := by
    intro x hx
    rcases List.mem_append.mp hx with hx | hx
    · exact Or.inl hx
    · exact Or.inr (by rw [List.mem_singleton.mp hx])
  have hpos := hi.next_pos
  have hnext : (s.newObject address name).kernelObjectId = s.kernelObjectId + 4 := rfl
  refine ⟨fun o ho => ?_, fun x hx => ?_, fun x hx => ?_, ?_, ?_⟩
  · have := hi.stored o ho
    simp only [newObject, List.length_append, List.length_singleton]
    omega
  · rcases hmem hx with hx | hx
    · exact hi.id_pos x hx
    · rwa [hx]
  · rw [hnext]
    rcases hmem hx with hx | hx
    · have := hi.id_lt x hx
      omega
    · omega
  · omega
  · simp only [newObject, List.map_append, List.map_cons, List.map_nil]
    refine List.nodup_append.mpr ⟨hi.nodup, by simp, ?_⟩
    intro a ha b hb heq
    obtain ⟨x, hx, rfl⟩ := List.mem_map.mp ha
    have := hi.id_lt x hx
    rw [List.mem_singleton] at hb
    omega

/-- A change of an object that leaves its id. -/
theorem inv_setObject {s : ObjectManager} {o : Nat} {obj obj' : KernelObject} (hi : s.Inv)
    (ho : s.heap[o]? = some obj) (hid : obj'.id = obj.id) : (s.setObject o obj').Inv := by
  have hmem : obj ∈ s.heap := List.mem_of_getElem? ho
  have hmap : (s.heap.set o obj').map KernelObject.id = s.heap.map KernelObject.id := by
    rw [List.map_set, hid]
    apply List.ext_getElem?
    intro i
    rw [List.getElem?_set]
    split
    next heq =>
      subst heq
      have hlt := (List.getElem?_eq_some_iff.mp ho).1
      rw [if_pos (by simpa using hlt), List.getElem?_map, ho]
      rfl
    next => rfl
  refine ⟨fun x hx => ?_, fun x hx => ?_, fun x hx => ?_, hi.next_pos, ?_⟩
  · have := hi.stored x hx
    simpa [setObject] using this
  · rcases List.mem_or_eq_of_mem_set hx with hx | rfl
    · exact hi.id_pos x hx
    · rw [hid]
      exact hi.id_pos obj hmem
  · rcases List.mem_or_eq_of_mem_set hx with hx | rfl
    · exact hi.id_lt x hx
    · rw [hid]
      exact hi.id_lt obj hmem
  · change ((s.heap.set o obj').map KernelObject.id).Nodup
    rw [hmap]
    exact hi.nodup

theorem inv_addObject {s : ObjectManager} (hi : s.Inv) (o : Nat) : (s.addObject o).Inv := by
  cases ho : s.heap[o]? with
  | none =>
    have hsame : s.addObject o = s := by simp [addObject, ho]
    rwa [hsame]
  | some obj =>
    obtain ⟨hheap, hnext, hstores⟩ := addObject_spec ho (hi.id_pos obj (List.mem_of_getElem? ho))
    have hset : (s.setObject o { obj with refCnt := obj.refCnt + 1 }).Inv := inv_setObject hi ho rfl
    refine ⟨fun x hx => ?_, hheap ▸ hset.id_pos, ?_, hnext ▸ hi.next_pos, hheap ▸ hset.nodup⟩
    · rw [hheap, List.length_set]
      rcases (hstores x).mp hx with hx | hx
      · exact hi.stored x hx
      · rw [hx.1]
        exact (List.getElem?_eq_some_iff.mp ho).1
    · rw [hheap, hnext]
      exact hset.id_lt

theorem inv_removeObject {s : ObjectManager} (hi : s.Inv) (o : Nat) : (s.removeObject o).Inv := by
  obtain ⟨hheap, hnext⟩ := s.removeObject_heap o
  refine ⟨fun x hx => ?_, hheap ▸ hi.id_pos, ?_, hnext ▸ hi.next_pos, hheap ▸ hi.nodup⟩
  · rw [hheap]
    rcases s.removeObject_cases o with ⟨addr, _, h⟩ | ⟨h, _⟩
    · rw [h] at hx
      obtain ⟨key, hkey⟩ := hx
      exact hi.stored x ⟨key, (OrderedDict.mem_pop.mp hkey).1⟩
    · rw [h] at hx
      exact hi.stored x hx
  · rw [hheap, hnext]
    exact hi.id_lt

theorem decRef_eq {s : ObjectManager} {o : Nat} {obj : KernelObject} (ho : s.heap[o]? = some obj) :
    s.decRef o = if obj.refCnt - 1 ≤ 0 then
      (s.setObject o { obj with refCnt := obj.refCnt - 1 }).removeObject o
    else s.setObject o { obj with refCnt := obj.refCnt - 1 } := by
  simp only [decRef, ho]

theorem inv_decRef {s : ObjectManager} (hi : s.Inv) (o : Nat) : (s.decRef o).Inv := by
  cases ho : s.heap[o]? with
  | none =>
    have hsame : s.decRef o = s := by simp [decRef, ho]
    rwa [hsame]
  | some obj =>
    have hset : (s.setObject o { obj with refCnt := obj.refCnt - 1 }).Inv := inv_setObject hi ho rfl
    rw [decRef_eq ho]
    split
    next => exact inv_removeObject hset o
    next => exact hset

end ObjectManager

end Speakeasy
