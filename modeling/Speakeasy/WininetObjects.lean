import Speakeasy.Forests
import Speakeasy.HandleTables

namespace Speakeasy

section

/-- The classes of the WinInet objects. -/
inductive WininetKind
  | wininetRequest
  | wininetSession
  | wininetInstance
deriving DecidableEq

def WininetKind.level : WininetKind → Nat
  | .wininetRequest => 0
  | .wininetSession => 1
  | .wininetInstance => 2

/-- The parent is the `session` of a request, and the `instance` of a session. -/
structure WininetComponent where
  kind : WininetKind
  handle : Nat
  parent : Option Nat
  children : List Nat

/-- `children.append(child)` -/
def WininetComponent.addChild (obj : WininetComponent) (child : Nat) : WininetComponent :=
  { obj with children := obj.children ++ [child] }

/-- The sockets and the WinInet objects have tables of their own, with one allocator. -/
structure NetworkManager where
  allocator : HandleAllocator
  sockets : AList fun _ : Nat => Nat
  wininets : AList fun _ : Nat => Nat
  objects : Nat → WininetComponent
  /-- The number of WinInet objects. -/
  count : Nat

namespace NetworkManager

variable (s : NetworkManager)

def parent (x : Nat) : Option Nat := (s.objects x).parent

/-- `WininetComponent.__init__` -/
def newComponent (kind : WininetKind) (parent : Option Nat) : NetworkManager :=
  let (handle, allocator) := s.allocator.allocateHandle
  { s with
    allocator := allocator
    wininets := s.wininets.insert handle s.count
    objects := Function.update s.objects s.count ⟨kind, handle, parent, []⟩
    count := s.count + 1 }

def getWininet (handle : Nat) : Option Nat := s.wininets.lookup (maskHandle handle)

/-- `get_wininet` with a class. -/
def getWininetOf (kind : WininetKind) (handle : Nat) : Option Nat :=
  match s.getWininet handle with
  | none => none
  | some obj => if (s.objects obj).kind = kind then some obj else none

def newWininetInst : NetworkManager := s.newComponent .wininetInstance none

/-- `new_session` and `new_request` of an object. -/
def newChild (kind : WininetKind) (parent : Nat) : NetworkManager :=
  let s' := s.newComponent kind (some parent)
  { s' with objects := Function.update s'.objects parent ((s'.objects parent).addChild s.count) }

/-- `InternetConnect` and `WinHttpConnect`, which look up the instance. -/
def newSession (handle : Nat) : NetworkManager :=
  match s.getWininetOf .wininetInstance handle with
  | none => s
  | some inst => s.newChild .wininetSession inst

/-- `new_request` of a session. When `urlparse` raises for the object name, the new object has a handle, but no
session, and it is no child. -/
def newRequestOf (session : Nat) (parses : Bool) : NetworkManager :=
  if parses then s.newChild .wininetRequest session else s.newComponent .wininetRequest none

/-- `HttpOpenRequest` and `WinHttpOpenRequest`, which look up the session. -/
def newRequest (handle : Nat) (parses : Bool) : NetworkManager :=
  match s.getWininetOf .wininetSession handle with
  | none => s
  | some session => s.newRequestOf session parses

/-- `open_url`, for an instance. -/
def openUrl (handle : Nat) (parses : Bool) : NetworkManager :=
  match s.getWininetOf .wininetInstance handle with
  | none => s
  | some inst => (s.newChild .wininetSession inst).newRequestOf s.count parses

/-- `self.wininets.close(handle)` -/
def closeHandle (handle : Nat) : NetworkManager × Bool :=
  match s.wininets.lookup (maskHandle handle) with
  | none => (s, false)
  | some _ =>
    ({ s with
        wininets := s.wininets.erase (maskHandle handle)
        allocator := s.allocator.freeHandle (maskHandle handle) }, true)

/-- `close_wininet_object`, or none for a `RecursionError`. -/
def closeWininetObject : Nat → NetworkManager → Nat → Option (NetworkManager × Bool)
  | 0, _, _ => none
  | limit + 1, s, handle =>
    match s.getWininet handle with
    | none => some (s, false)
    | some obj => do
      let s ← (s.objects obj).children.foldlM (fun s child =>
        if (s.wininets.lookup (maskHandle (s.objects child).handle)).isSome then
          (closeWininetObject limit s (s.objects child).handle).map Prod.fst
        else some s) s
      return s.closeHandle handle

def newSocket (sock : Nat) : NetworkManager :=
  let (handle, allocator) := s.allocator.allocateHandle
  { s with allocator := allocator, sockets := s.sockets.insert handle sock }

def closeSocket (fd : Nat) : NetworkManager :=
  match s.sockets.lookup (maskHandle fd) with
  | none => s
  | some _ =>
    { s with
      sockets := s.sockets.erase (maskHandle fd)
      allocator := s.allocator.freeHandle (maskHandle fd) }

/-- `REUSE_CLOSED_HANDLES` is `False`. -/
def initial : NetworkManager where
  allocator := { reuseClosedHandles := false }
  sockets := ∅
  wininets := ∅
  objects := fun _ => ⟨.wininetRequest, 0, none, []⟩
  count := 0

end NetworkManager

/-- `parses` says whether `urlparse` takes the object name, and `allocate` is a handle value of another table. -/
inductive NetOp
  | newWininetInst
  | newSession (handle : Nat)
  | newRequest (handle : Nat) (parses : Bool)
  | openUrl (handle : Nat) (parses : Bool)
  | closeWininetObject (handle : Nat)
  | newSocket (sock : Nat)
  | closeSocket (fd : Nat)
  | allocate

def NetOp.Parses : NetOp → Prop
  | newRequest _ parses => parses = true
  | openUrl _ parses => parses = true
  | _ => True

namespace NetworkManager

/-- Python allows 1000 nested calls. -/
def recursionLimit : Nat := 1000

def step (s : NetworkManager) : NetOp → Option NetworkManager
  | .newWininetInst => some s.newWininetInst
  | .newSession handle => some (s.newSession handle)
  | .newRequest handle parses => some (s.newRequest handle parses)
  | .openUrl handle parses => some (s.openUrl handle parses)
  | .closeWininetObject handle => (closeWininetObject recursionLimit s handle).map Prod.fst
  | .newSocket sock => some (s.newSocket sock)
  | .closeSocket fd => some (s.closeSocket fd)
  | .allocate => some { s with allocator := s.allocator.allocateHandle.2 }

/-- The states after calls whose object names `urlparse` takes. -/
inductive Reached : NetworkManager → Prop
  | initial : Reached initial
  | step {s s' : NetworkManager} {op : NetOp} (h : Reached s) (hparses : op.Parses) (hstep : s.step op = some s') :
    Reached s'

def Open (s : NetworkManager) (x : Nat) : Prop := s.wininets.lookup (s.objects x).handle = some x

/-- The open objects have open parents, and a handle closes with what is under its object. -/
structure WininetLaw (s : NetworkManager) : Prop where
  session : ∀ {x}, s.Open x → (s.objects x).kind = .wininetSession →
    ∃ p, s.parent x = some p ∧ s.Open p ∧ (s.objects p).kind = .wininetInstance
  request : ∀ {x}, s.Open x → (s.objects x).kind = .wininetRequest →
    ∃ p, s.parent x = some p ∧ s.Open p ∧ (s.objects p).kind = .wininetSession
  closes : ∀ {handle x}, s.getWininet handle = some x → ∃ s',
    closeWininetObject recursionLimit s handle = some (s', true) ∧ s'.sockets = s.sockets ∧
      ∀ h y, s'.wininets.lookup h = some y ↔ s.wininets.lookup h = some y ∧ ¬Under s.parent y x
  closed : ∀ {handle}, s.getWininet handle = none →
    closeWininetObject recursionLimit s handle = some (s, false)

end NetworkManager

end

section

namespace NetworkManager

variable {s s' : NetworkManager}

theorem maskHandle_of_le {handle bound : Nat} (h : handle < bound) (hbound : bound ≤ 0x100000000) :
    maskHandle handle = handle := Nat.mod_eq_of_lt (by omega)

/-- The handles are those of the open objects, the children of an object are the objects that have it as parent,
and the open objects have open parents. -/
structure Inv (s : NetworkManager) : Prop where
  noReuse : s.allocator.reuseClosedHandles = false
  noClosed : s.allocator.closedHandles = []
  entry : ∀ {h x}, s.wininets.lookup h = some x → x < s.count ∧ (s.objects x).handle = h
  handle_lt : ∀ {x}, x < s.count → (s.objects x).handle < s.allocator.handle
  handle_inj : ∀ {x y}, x < s.count → y < s.count → (s.objects x).handle = (s.objects y).handle → x = y
  fresh : ∀ {x}, s.count ≤ x → (s.objects x).children = [] ∧ s.parent x = none
  child : ∀ {c x}, c ∈ (s.objects x).children ↔ s.parent c = some x
  level : ∀ {c x}, s.parent c = some x → x < s.count ∧ (s.objects c).kind.level + 1 = (s.objects x).kind.level
  hasParent : ∀ {x}, x < s.count → (s.objects x).kind ≠ .wininetInstance → (s.parent x).isSome = true
  rooted : Rooted s.parent s.Open

theorem inv_initial : Inv initial where
  noReuse := rfl
  noClosed := rfl
  entry h := by simp [initial] at h
  handle_lt h := absurd h (Nat.not_lt_zero _)
  handle_inj h := absurd h (Nat.not_lt_zero _)
  fresh _ := ⟨rfl, rfl⟩
  child {c x} := by
    show c ∈ [] ↔ none = some x
    simp
  level {c x} h := by
    have hnone : none = some x := h
    simp at hnone
  hasParent h := absurd h (Nat.not_lt_zero _)
  rooted {x p} hopen := by
    have hlookup : (initial.wininets.lookup (initial.objects x).handle) = some x := hopen
    simp [initial] at hlookup

theorem Inv.open_of_lookup (h : Inv s) {handle x : Nat} (hlookup : s.wininets.lookup handle = some x) : s.Open x := by
  unfold Open
  rw [(h.entry hlookup).2]
  exact hlookup

/-- Some objects are closed, and nothing else changes. -/
structure Closes (s s' : NetworkManager) (nodes : Nat → Prop) : Prop where
  allocator : s'.allocator = s.allocator
  sockets : s'.sockets = s.sockets
  objects : s'.objects = s.objects
  count : s'.count = s.count
  lookup : ∀ h y, s'.wininets.lookup h = some y ↔ s.wininets.lookup h = some y ∧ ¬nodes y

theorem Closes.open {nodes : Nat → Prop} (h : Closes s s' nodes) (y : Nat) : s'.Open y ↔ s.Open y ∧ ¬nodes y := by
  unfold Open
  rw [h.objects, h.lookup]

theorem Closes.parent {nodes : Nat → Prop} (h : Closes s s' nodes) : s'.parent = s.parent := by
  unfold NetworkManager.parent
  rw [h.objects]

theorem Closes.trans {s'' : NetworkManager} {nodes nodes' : Nat → Prop} (h : Closes s s' nodes)
    (h' : Closes s' s'' nodes') : Closes s s'' fun y => nodes y ∨ nodes' y where
  allocator := h'.allocator.trans h.allocator
  sockets := h'.sockets.trans h.sockets
  objects := h'.objects.trans h.objects
  count := h'.count.trans h.count
  lookup handle y := by rw [h'.lookup, h.lookup, not_or, and_assoc]

/-- A subtree closes, and the invariant stays. -/
theorem Closes.inv {nodes : Nat → Prop} (h : Closes s s' nodes) (hinv : Inv s)
    (hrooted : Rooted s.parent fun y => s.Open y ∧ ¬nodes y) : Inv s' where
  noReuse := by rw [h.allocator]; exact hinv.noReuse
  noClosed := by rw [h.allocator]; exact hinv.noClosed
  entry hlookup := by
    rw [h.count, h.objects]
    exact hinv.entry ((h.lookup _ _).mp hlookup).1
  handle_lt hx := by
    rw [h.objects, h.allocator]
    exact hinv.handle_lt (h.count ▸ hx)
  handle_inj hx hy heq := hinv.handle_inj (h.count ▸ hx) (h.count ▸ hy) (h.objects ▸ heq)
  fresh hx := by
    rw [h.parent, h.objects]
    exact hinv.fresh (h.count ▸ hx)
  child := by
    rw [h.parent, h.objects]
    exact hinv.child
  level hparent := by
    rw [h.count, h.objects]
    exact hinv.level (h.parent ▸ hparent)
  hasParent hx hkind := by
    rw [h.parent]
    exact hinv.hasParent (h.count ▸ hx) (h.objects ▸ hkind)
  rooted := by
    intro x p hx hp
    rw [h.parent] at hp
    rw [h.open] at hx ⊢
    exact hrooted hx hp

/-! A handle is closed: first the children of its object, and then itself. -/

theorem Inv.under_level (h : Inv s) {x y : Nat} (hunder : Under s.parent x y) :
    (s.objects x).kind.level ≤ (s.objects y).kind.level := by
  have hlevel : ∀ {x p}, s.parent x = some p → (s.objects x).kind.level < (s.objects p).kind.level := by
    intro x p hp
    have hstep := (h.level hp).2
    omega
  exact @Under.level_le _ s.parent x y hunder (fun x => (s.objects x).kind.level) hlevel

/-- Every open handle of an object of a low level closes with its subtree. -/
def ClosesBelow (limit : Nat) : Prop :=
  ∀ {s : NetworkManager} {handle x : Nat}, Inv s → s.allocator.handle ≤ 0x100000000 →
    s.getWininet handle = some x → (s.objects x).kind.level < limit →
    ∃ s', closeWininetObject limit s handle = some (s', true) ∧ Inv s' ∧ Closes s s' fun y => Under s.parent y x

theorem Closes.refl {nodes : Nat → Prop} (hnone : ∀ y, s.Open y → ¬nodes y) (hinv : Inv s) : Closes s s nodes where
  allocator := rfl
  sockets := rfl
  objects := rfl
  count := rfl
  lookup _ y := ⟨fun h => ⟨h, hnone y (hinv.open_of_lookup h)⟩, fun h => h.1⟩

/-- The loop of `close_wininet_object`. A child that is closed has nothing open under it. -/
theorem closeChildren {limit : Nat} (hlimit : ClosesBelow limit) {children : List Nat} (hinv : Inv s)
    (hbound : s.allocator.handle ≤ 0x100000000)
    (hchildren : ∀ c ∈ children, c < s.count ∧ (s.objects c).kind.level < limit) :
    ∃ s', children.foldlM (fun s child =>
        if (s.wininets.lookup (maskHandle (s.objects child).handle)).isSome then
          (closeWininetObject limit s (s.objects child).handle).map Prod.fst
        else some s) s = some s' ∧ Inv s' ∧ Closes s s' fun y => ∃ c ∈ children, Under s.parent y c := by
  induction children generalizing s with
  | nil => exact ⟨s, rfl, hinv, Closes.refl (fun y _ h => by simp at h) hinv⟩
  | cons c children ih =>
    obtain ⟨hc, hlevel⟩ := hchildren c List.mem_cons_self
    have hstep : ∃ t, (if (s.wininets.lookup (maskHandle (s.objects c).handle)).isSome then
        (closeWininetObject limit s (s.objects c).handle).map Prod.fst else some s) = some t ∧ Inv t ∧
          Closes s t fun y => Under s.parent y c := by
      cases hlookup : s.wininets.lookup (maskHandle (s.objects c).handle) with
      | some y =>
        have hy := hinv.entry hlookup
        rw [maskHandle_of_le (hinv.handle_lt hc) hbound] at hy
        have hyc : y = c := hinv.handle_inj hy.1 hc hy.2
        rw [hyc] at hlookup
        obtain ⟨t, hclose, ht, hcloses⟩ := hlimit hinv hbound hlookup hlevel
        exact ⟨t, by rw [hclose]; rfl, ht, hcloses⟩
      | none =>
        have hclosed : ¬s.Open c := by
          intro hopen
          rw [maskHandle_of_le (hinv.handle_lt hc) hbound, hopen] at hlookup
          cases hlookup
        exact ⟨s, rfl, hinv, Closes.refl (fun y hy hunder => hclosed (hinv.rooted.under hy hunder)) hinv⟩
    obtain ⟨t, ht, htinv, htcloses⟩ := hstep
    have hrest : ∀ c ∈ children, c < t.count ∧ (t.objects c).kind.level < limit := by
      intro c hc
      rw [htcloses.count, htcloses.objects]
      exact hchildren c (List.mem_cons_of_mem _ hc)
    obtain ⟨s', hs', hsinv, hscloses⟩ := ih htinv (by rw [htcloses.allocator]; exact hbound) hrest
    refine ⟨s', ?_, hsinv, ?_⟩
    · rw [List.foldlM_cons, ht]
      exact hs'
    · have htrans := htcloses.trans hscloses
      rw [htcloses.parent] at htrans
      refine ⟨htrans.allocator, htrans.sockets, htrans.objects, htrans.count, fun h y => ?_⟩
      rw [htrans.lookup, List.exists_mem_cons_iff]

/-- The handle itself closes, when nothing open is left under its object. -/
theorem closeHandle_closes (hinv : Inv s) {handle x : Nat}
    (hget : s.getWininet handle = some x) :
    ∃ s', s.closeHandle handle = (s', true) ∧ Closes s s' fun y => y = x := by
  have hlookup : s.wininets.lookup (maskHandle handle) = some x := hget
  have hx := hinv.entry hlookup
  have hallocator : s.allocator.freeHandle (maskHandle handle) = s.allocator := by
    unfold HandleAllocator.freeHandle
    rw [if_neg (by rw [hinv.noReuse]; exact Bool.false_ne_true)]
  unfold closeHandle
  rw [hlookup]
  refine ⟨_, rfl, hallocator, rfl, rfl, rfl, fun h y => ?_⟩
  show (s.wininets.erase (maskHandle handle)).lookup h = some y ↔ _
  by_cases heq : h = maskHandle handle
  · rw [heq, AList.lookup_erase, hlookup]
    constructor
    · intro hnone
      cases hnone
    · intro hsome
      exact absurd (Option.some.inj hsome.1).symm hsome.2
  · rw [AList.lookup_erase_ne heq]
    refine ⟨fun hsome => ⟨hsome, fun hyx => heq ?_⟩, fun hsome => hsome.1⟩
    rw [← (hinv.entry hsome).2, hyx, hx.2]

theorem closesBelow (limit : Nat) : ClosesBelow limit := by
  induction limit with
  | zero => exact fun _ _ _ hlt => absurd hlt (Nat.not_lt_zero _)
  | succ limit ih =>
    intro s handle x hinv hbound hget hlevel
    have hlookup : s.wininets.lookup (maskHandle handle) = some x := hget
    have hopen := hinv.open_of_lookup hlookup
    have hchildren : ∀ c ∈ (s.objects x).children, c < s.count ∧ (s.objects c).kind.level < limit := by
      intro c hc
      have hparent := hinv.child.mp hc
      have hstep := (hinv.level hparent).2
      refine ⟨?_, by omega⟩
      by_contra hge
      rw [(hinv.fresh (Nat.le_of_not_lt hge)).2] at hparent
      cases hparent
    obtain ⟨t, hfold, htinv, htcloses⟩ := closeChildren ih hinv hbound hchildren
    have htopen : t.Open x := by
      rw [htcloses.open]
      refine ⟨hopen, fun ⟨c, hc, hunder⟩ => ?_⟩
      have hle := hinv.under_level hunder
      have hstep := (hinv.level (hinv.child.mp hc)).2
      omega
    have htget : t.getWininet handle = some x := by
      show t.wininets.lookup (maskHandle handle) = some x
      rw [← (hinv.entry hlookup).2, ← htcloses.objects]
      exact htopen
    obtain ⟨s', hclose, hcloses⟩ := closeHandle_closes htinv htget
    have hall : Closes s s' fun y => Under s.parent y x := by
      have htrans := htcloses.trans hcloses
      refine ⟨htrans.allocator, htrans.sockets, htrans.objects, htrans.count, fun h y => ?_⟩
      rw [htrans.lookup, under_iff, or_comm]
      simp only [hinv.child]
    refine ⟨s', ?_, hall.inv hinv (hinv.rooted.remove x), hall⟩
    unfold closeWininetObject
    rw [hget]
    simp only [Option.bind_eq_bind, hfold, Option.bind_some, hclose]
    rfl

theorem closeWininetObject_none {handle : Nat} (hget : s.getWininet handle = none) :
    closeWininetObject recursionLimit s handle = some (s, false) := by
  show closeWininetObject (999 + 1) s handle = _
  unfold closeWininetObject
  rw [hget]

end NetworkManager

end

end Speakeasy
