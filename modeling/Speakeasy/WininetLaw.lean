import Speakeasy.WininetObjects

namespace Speakeasy

namespace NetworkManager

variable {s s' : NetworkManager}

/-- A new object, with its handle. -/
structure Created (s s' : NetworkManager) (kind : WininetKind) (parent : Option Nat) : Prop where
  reuse : s'.allocator.reuseClosedHandles = s.allocator.reuseClosedHandles
  closed : s'.allocator.closedHandles = s.allocator.closedHandles
  counter : s'.allocator.handle = s.allocator.handle + 4
  count : s'.count = s.count + 1
  lookup : ∀ h, s'.wininets.lookup h = if h = s.allocator.handle then some s.count else s.wininets.lookup h
  new : s'.objects s.count = ⟨kind, s.allocator.handle, parent, []⟩
  kinds : ∀ {y}, y ≠ s.count → (s'.objects y).kind = (s.objects y).kind
  handles : ∀ {y}, y ≠ s.count → (s'.objects y).handle = (s.objects y).handle
  parents : ∀ {y}, y ≠ s.count → s'.parent y = s.parent y
  children : ∀ {c y}, y ≠ s.count →
    (c ∈ (s'.objects y).children ↔ c ∈ (s.objects y).children ∨ parent = some y ∧ c = s.count)

theorem allocateHandle_eq (hclosed : s.allocator.closedHandles = []) : s.allocator.allocateHandle =
    (s.allocator.handle, { s.allocator with handle := s.allocator.handle + 4 }) :=
  HandleAllocator.allocateHandle_nil hclosed

theorem lookup_insert {table : AList fun _ : Nat => Nat} (h k x : Nat) :
    (table.insert k x).lookup h = if h = k then some x else table.lookup h := by
  by_cases heq : h = k
  · rw [if_pos heq, heq, AList.lookup_insert]
  · rw [if_neg heq, AList.lookup_insert_ne heq]

theorem newWininetInst_objects (hinv : Inv s) (y : Nat) : s.newWininetInst.objects y =
    if y = s.count then ⟨.wininetInstance, s.allocator.handle, none, []⟩ else s.objects y := by
  unfold newWininetInst newComponent
  rw [allocateHandle_eq hinv.noClosed]
  exact Function.update_apply _ _ _ _

theorem newWininetInst_created (hinv : Inv s) : Created s s.newWininetInst .wininetInstance none := by
  have hobjects := newWininetInst_objects hinv
  have hold : ∀ {y}, y ≠ s.count → s.newWininetInst.objects y = s.objects y := fun {y} hy =>
    (hobjects y).trans (if_neg hy)
  have hlookup : ∀ h, s.newWininetInst.wininets.lookup h =
      if h = s.allocator.handle then some s.count else s.wininets.lookup h := by
    intro h
    unfold newWininetInst newComponent
    rw [allocateHandle_eq hinv.noClosed]
    exact lookup_insert h _ _
  have hallocator : s.newWininetInst.allocator = { s.allocator with handle := s.allocator.handle + 4 } := by
    unfold newWininetInst newComponent
    rw [allocateHandle_eq hinv.noClosed]
  refine ⟨by rw [hallocator], by rw [hallocator], by rw [hallocator], rfl, hlookup, ?_, fun hy => by rw [hold hy],
    fun hy => by rw [hold hy], fun {y} hy => ?_, fun {c y} hy => ?_⟩
  · rw [hobjects, if_pos rfl]
  · unfold NetworkManager.parent
    rw [hold hy]
  · rw [hold hy]
    simp

theorem newChild_objects (hinv : Inv s) (kind : WininetKind) {p : Nat} (hp : p < s.count) (y : Nat) :
    (s.newChild kind p).objects y =
      if y = p then (s.objects p).addChild s.count
      else if y = s.count then ⟨kind, s.allocator.handle, some p, []⟩ else s.objects y := by
  have hobject : (s.newComponent kind (some p)).objects p = s.objects p := Function.update_of_ne (Nat.ne_of_lt hp) _ _
  show Function.update (s.newComponent kind (some p)).objects p _ y = _
  rw [hobject, Function.update_apply]
  split
  next => rfl
  next =>
    unfold newComponent
    rw [allocateHandle_eq hinv.noClosed]
    exact Function.update_apply _ _ _ _

theorem newChild_created (hinv : Inv s) (kind : WininetKind) {p : Nat} (hp : p < s.count) :
    Created s (s.newChild kind p) kind (some p) := by
  have hne : p ≠ s.count := Nat.ne_of_lt hp
  have hobjects := newChild_objects hinv kind hp
  have hold : ∀ {y}, y ≠ s.count → ((s.newChild kind p).objects y).kind = (s.objects y).kind ∧
      ((s.newChild kind p).objects y).handle = (s.objects y).handle ∧
      ((s.newChild kind p).objects y).parent = (s.objects y).parent := by
    intro y hy
    rw [hobjects, if_neg hy]
    split
    next hyp =>
      rw [hyp]
      exact ⟨rfl, rfl, rfl⟩
    next => exact ⟨rfl, rfl, rfl⟩
  have hlookup : ∀ h, (s.newChild kind p).wininets.lookup h =
      if h = s.allocator.handle then some s.count else s.wininets.lookup h := by
    intro h
    unfold newChild newComponent
    rw [allocateHandle_eq hinv.noClosed]
    exact lookup_insert h _ _
  have hallocator : (s.newChild kind p).allocator = { s.allocator with handle := s.allocator.handle + 4 } := by
    unfold newChild newComponent
    rw [allocateHandle_eq hinv.noClosed]
  refine ⟨by rw [hallocator], by rw [hallocator], by rw [hallocator], rfl, hlookup, ?_, fun hy => (hold hy).1,
    fun hy => (hold hy).2.1, fun hy => (hold hy).2.2, fun {c y} hy => ?_⟩
  · rw [hobjects, if_neg hne.symm, if_pos rfl]
  · rw [hobjects, if_neg hy]
    split
    next hyp =>
      rw [hyp]
      show c ∈ (s.objects p).children ++ [s.count] ↔ _
      rw [List.mem_append, List.mem_singleton]
      simp
    next hyp =>
      have hsome : ¬(some p = some y) := fun h => hyp (Option.some.inj h).symm
      simp [hsome]

theorem Created.parent_new {kind : WininetKind} {parent : Option Nat} (h : Created s s' kind parent) :
    s'.parent s.count = parent := by
  unfold NetworkManager.parent
  rw [h.new]

/-- The objects that were open stay open, and the new one is open. -/
theorem Created.open {kind : WininetKind} {parent : Option Nat} (h : Created s s' kind parent) (hinv : Inv s) {y : Nat} :
    s'.Open y ↔ s.Open y ∨ y = s.count := by
  unfold Open
  rw [h.lookup]
  by_cases hy : y = s.count
  · rw [hy, h.new, if_pos rfl]
    exact ⟨fun _ => Or.inr rfl, fun _ => rfl⟩
  · rw [h.handles hy]
    by_cases hhandle : (s.objects y).handle = s.allocator.handle
    · rw [if_pos hhandle]
      constructor
      · intro hcount
        exact Or.inr (Option.some.inj hcount).symm
      · intro hopen
        cases hopen with
        | inr hcount => exact absurd hcount hy
        | inl hlookup =>
          have hlt := hinv.handle_lt (hinv.entry hlookup).1
          omega
    · rw [if_neg hhandle]
      exact ⟨Or.inl, fun hopen => hopen.resolve_right hy⟩

theorem Created.inv {kind : WininetKind} {parent : Option Nat} (h : Created s s' kind parent) (hinv : Inv s)
    (hnone : parent = none → kind = .wininetInstance)
    (hparent : ∀ {p}, parent = some p → s.Open p ∧ kind.level + 1 = (s.objects p).kind.level) : Inv s' where
  noReuse := h.reuse.trans hinv.noReuse
  noClosed := h.closed.trans hinv.noClosed
  entry {handle x} hlookup := by
    rw [h.lookup] at hlookup
    split at hlookup
    next heq =>
      rw [← Option.some.inj hlookup, h.count, h.new]
      exact ⟨Nat.lt_succ_self _, heq.symm⟩
    next =>
      have hx := hinv.entry hlookup
      rw [h.count, h.handles (Nat.ne_of_lt hx.1)]
      exact ⟨Nat.lt_succ_of_lt hx.1, hx.2⟩
  handle_lt {x} hx := by
    rw [h.count] at hx
    rw [h.counter]
    by_cases heq : x = s.count
    · rw [heq, h.new]
      exact Nat.lt_add_of_pos_right (by decide)
    · have hlt := hinv.handle_lt (show x < s.count by omega)
      rw [h.handles heq]
      omega
  handle_inj {x y} hx hy heq := by
    rw [h.count] at hx hy
    by_cases hxc : x = s.count
    · by_cases hyc : y = s.count
      · rw [hxc, hyc]
      · have hlt := hinv.handle_lt (show y < s.count by omega)
        rw [hxc, h.new, h.handles hyc] at heq
        have heq' : s.allocator.handle = (s.objects y).handle := heq
        omega
    · have hlt := hinv.handle_lt (show x < s.count by omega)
      by_cases hyc : y = s.count
      · rw [hyc, h.new, h.handles hxc] at heq
        have heq' : (s.objects x).handle = s.allocator.handle := heq
        omega
      · rw [h.handles hxc, h.handles hyc] at heq
        exact hinv.handle_inj (by omega) (by omega) heq
  fresh {x} hx := by
    rw [h.count] at hx
    have hne : x ≠ s.count := by omega
    obtain ⟨hchildren, hnoparent⟩ := hinv.fresh (show s.count ≤ x by omega)
    refine ⟨List.eq_nil_iff_forall_not_mem.mpr fun c hc => ?_, by rw [h.parents hne, hnoparent]⟩
    cases (h.children hne).mp hc with
    | inl hold =>
      rw [hchildren] at hold
      cases hold
    | inr hnew =>
      have hlt := (hinv.entry (hparent hnew.1).1).1
      omega
  child {c x} := by
    by_cases hx : x = s.count
    · rw [hx, h.new]
      constructor
      · intro hc
        cases hc
      · intro hc
        by_cases hcc : c = s.count
        · rw [hcc, h.parent_new] at hc
          have hlt := (hinv.entry (hparent hc).1).1
          omega
        · rw [h.parents hcc] at hc
          have hlt := (hinv.level hc).1
          omega
    · rw [h.children hx]
      by_cases hcc : c = s.count
      · have hno : c ∉ (s.objects x).children := by
          intro hc
          have hnoparent := (hinv.fresh (Nat.le_of_eq hcc.symm)).2
          rw [hinv.child.mp hc] at hnoparent
          cases hnoparent
        rw [hcc, h.parent_new]
        exact ⟨fun hc => hc.elim (fun hold => absurd (hcc ▸ hold) hno) fun hnew => hnew.1, fun hc => Or.inr ⟨hc, rfl⟩⟩
      · rw [h.parents hcc, ← hinv.child]
        exact ⟨fun hc => hc.resolve_right fun hnew => hcc hnew.2, Or.inl⟩
  level {c x} hc := by
    rw [h.count]
    by_cases hcc : c = s.count
    · rw [hcc, h.parent_new] at hc
      obtain ⟨hopen, hlevel⟩ := hparent hc
      have hlt := (hinv.entry hopen).1
      rw [hcc, h.new, h.kinds (Nat.ne_of_lt hlt)]
      exact ⟨Nat.lt_succ_of_lt hlt, hlevel⟩
    · rw [h.parents hcc] at hc
      obtain ⟨hlt, hlevel⟩ := hinv.level hc
      rw [h.kinds hcc, h.kinds (Nat.ne_of_lt hlt)]
      exact ⟨Nat.lt_succ_of_lt hlt, hlevel⟩
  hasParent {x} hx hkind := by
    rw [h.count] at hx
    by_cases hxc : x = s.count
    · rw [hxc, h.parent_new]
      rw [hxc, h.new] at hkind
      cases hp : parent with
      | none => exact absurd (hnone hp) hkind
      | some p => rfl
    · rw [h.parents hxc]
      rw [h.kinds hxc] at hkind
      exact hinv.hasParent (by omega) hkind
  rooted x p hx hp := by
    rw [h.open hinv] at hx ⊢
    by_cases hxc : x = s.count
    · rw [hxc, h.parent_new] at hp
      exact Or.inl (hparent hp).1
    · rw [h.parents hxc] at hp
      exact Or.inl (hinv.rooted (hx.resolve_right hxc) hp)

end NetworkManager

namespace NetworkManager

variable {s s' : NetworkManager}

/-! The counter of the handles only grows. -/

theorem closeHandle_counter (s : NetworkManager) (handle : Nat) :
    (s.closeHandle handle).1.allocator.handle = s.allocator.handle := by
  unfold closeHandle
  split
  next => rfl
  next => exact HandleAllocator.freeHandle_handle _ _

theorem closeWininetObject_counter {limit handle : Nat} {closed : Bool}
    (h : closeWininetObject limit s handle = some (s', closed)) : s'.allocator.handle = s.allocator.handle := by
  induction limit generalizing s s' handle closed with
  | zero => cases h
  | succ limit ih =>
    have hfold : ∀ (children : List Nat) {t t' : NetworkManager}, children.foldlM (fun s child =>
        if (s.wininets.lookup (maskHandle (s.objects child).handle)).isSome then
          (closeWininetObject limit s (s.objects child).handle).map Prod.fst
        else some s) t = some t' → t'.allocator.handle = t.allocator.handle := by
      intro children
      induction children with
      | nil =>
        intro t t' ht
        rw [← Option.some.inj ht]
      | cons c children ihc =>
        intro t t' ht
        rw [List.foldlM_cons] at ht
        obtain ⟨u, hu, hrest⟩ := Option.bind_eq_some_iff.mp ht
        rw [ihc hrest]
        split at hu
        next =>
          obtain ⟨⟨v, flag⟩, hv, rfl⟩ := Option.map_eq_some_iff.mp hu
          exact ih hv
        next => rw [← Option.some.inj hu]
    unfold closeWininetObject at h
    split at h
    next => rw [← (Prod.mk.inj (Option.some.inj h)).1]
    next obj hobj =>
      obtain ⟨t, ht, hclose⟩ := Option.bind_eq_some_iff.mp h
      have hs' : (t.closeHandle handle).1 = s' := congrArg Prod.fst (Option.some.inj hclose)
      rw [← hs', closeHandle_counter, hfold _ ht]

theorem newComponent_counter (s : NetworkManager) (kind : WininetKind) (parent : Option Nat) :
    s.allocator.handle ≤ (s.newComponent kind parent).allocator.handle :=
  HandleAllocator.allocateHandle_le s.allocator

theorem newChild_counter (s : NetworkManager) (kind : WininetKind) (p : Nat) :
    s.allocator.handle ≤ (s.newChild kind p).allocator.handle := newComponent_counter s kind (some p)

theorem newRequestOf_counter (s : NetworkManager) (session : Nat) (parses : Bool) :
    s.allocator.handle ≤ (s.newRequestOf session parses).allocator.handle := by
  cases parses with
  | true => exact newChild_counter s _ _
  | false => exact newComponent_counter s _ _

theorem step_counter {op : NetOp} (h : s.step op = some s') : s.allocator.handle ≤ s'.allocator.handle := by
  cases op with
  | closeWininetObject handle =>
    obtain ⟨⟨t, closed⟩, ht, rfl⟩ := Option.map_eq_some_iff.mp h
    exact Nat.le_of_eq (closeWininetObject_counter ht).symm
  | newWininetInst =>
    rw [← Option.some.inj h]
    exact newComponent_counter s _ none
  | newSession handle =>
    rw [← Option.some.inj h]
    unfold newSession
    split
    next => exact Nat.le_refl _
    next => exact newChild_counter s _ _
  | newRequest handle parses =>
    rw [← Option.some.inj h]
    unfold newRequest
    split
    next => exact Nat.le_refl _
    next => exact newRequestOf_counter s _ _
  | openUrl handle parses =>
    rw [← Option.some.inj h]
    unfold openUrl
    split
    next => exact Nat.le_refl _
    next => exact Nat.le_trans (newChild_counter s _ _) (newRequestOf_counter _ _ _)
  | newSocket sock =>
    rw [← Option.some.inj h]
    exact HandleAllocator.allocateHandle_le s.allocator
  | closeSocket fd =>
    rw [← Option.some.inj h]
    unfold closeSocket
    split
    next => exact Nat.le_refl _
    next => exact Nat.le_of_eq (HandleAllocator.freeHandle_handle _ _).symm
  | allocate =>
    rw [← Option.some.inj h]
    exact HandleAllocator.allocateHandle_le s.allocator

/-! Each call keeps the invariant. -/

theorem Inv.of_getWininetOf (h : Inv s) {kind : WininetKind} {handle x : Nat}
    (hget : s.getWininetOf kind handle = some x) : s.Open x ∧ (s.objects x).kind = kind := by
  unfold getWininetOf at hget
  split at hget
  next => cases hget
  next obj hobj =>
    split at hget
    next hkind =>
      rw [← Option.some.inj hget]
      exact ⟨h.open_of_lookup hobj, hkind⟩
    next => cases hget

theorem newChild_inv (h : Inv s) (kind : WininetKind) {p : Nat} (hopen : s.Open p)
    (hlevel : kind.level + 1 = (s.objects p).kind.level) : Inv (s.newChild kind p) := by
  refine (newChild_created h kind (h.entry hopen).1).inv h (fun hnone => by cases hnone) fun {q} hq => ?_
  rw [← Option.some.inj hq]
  exact ⟨hopen, hlevel⟩

/-- The other tables and the counter do not matter. -/
theorem Inv.of_eq (h : Inv s) (hwininets : s'.wininets = s.wininets) (hobjects : s'.objects = s.objects)
    (hcount : s'.count = s.count) (hreuse : s'.allocator.reuseClosedHandles = false)
    (hclosed : s'.allocator.closedHandles = []) (hle : s.allocator.handle ≤ s'.allocator.handle) : Inv s' := by
  have hcloses : Closes s { s' with allocator := s.allocator, sockets := s.sockets } fun _ => False :=
    ⟨rfl, rfl, hobjects, hcount, fun k y => by rw [show AList.lookup k s'.wininets = _ from by rw [hwininets]]; simp⟩
  have hinv := hcloses.inv h fun x p hx hp => ⟨h.rooted hx.1 hp, id⟩
  exact ⟨hreuse, hclosed, hinv.entry, fun hx => Nat.lt_of_lt_of_le (hinv.handle_lt hx) hle, hinv.handle_inj, hinv.fresh,
    hinv.child, hinv.level, hinv.hasParent, hinv.rooted⟩

theorem step_inv {op : NetOp} (hinv : Inv s) (hbound : s.allocator.handle ≤ 0x100000000) (hparses : op.Parses)
    (h : s.step op = some s') : Inv s' := by
  have hallocate := allocateHandle_eq hinv.noClosed
  cases op with
  | newWininetInst =>
    rw [← Option.some.inj h]
    exact (newWininetInst_created hinv).inv hinv (fun _ => rfl) fun hp => by cases hp
  | newSession handle =>
    rw [← Option.some.inj h]
    unfold newSession
    split
    next => exact hinv
    next p hp =>
      obtain ⟨hopen, hkind⟩ := hinv.of_getWininetOf hp
      exact newChild_inv hinv _ hopen (by rw [hkind]; rfl)
  | newRequest handle parses =>
    cases hparses
    rw [← Option.some.inj h]
    unfold newRequest
    split
    next => exact hinv
    next p hp =>
      obtain ⟨hopen, hkind⟩ := hinv.of_getWininetOf hp
      exact newChild_inv hinv _ hopen (by rw [hkind]; rfl)
  | openUrl handle parses =>
    cases hparses
    rw [← Option.some.inj h]
    unfold openUrl
    split
    next => exact hinv
    next p hp =>
      obtain ⟨hopen, hkind⟩ := hinv.of_getWininetOf hp
      have hcreated := newChild_created hinv .wininetSession (hinv.entry hopen).1
      have hsession := newChild_inv hinv .wininetSession hopen (by rw [hkind]; rfl)
      refine newChild_inv hsession _ ((hcreated.open hinv).mpr (Or.inr rfl)) ?_
      rw [hcreated.new]
      rfl
  | closeWininetObject handle =>
    obtain ⟨⟨t, closed⟩, ht, rfl⟩ := Option.map_eq_some_iff.mp h
    cases hget : s.getWininet handle with
    | none =>
      rw [closeWininetObject_none hget] at ht
      rw [← (Prod.mk.inj (Option.some.inj ht)).1]
      exact hinv
    | some x =>
      have hlevel : (s.objects x).kind.level < recursionLimit := by
        cases (s.objects x).kind with
        | wininetRequest => decide
        | wininetSession => decide
        | wininetInstance => decide
      obtain ⟨u, hu, huinv, _⟩ := closesBelow recursionLimit hinv hbound hget hlevel
      rw [hu] at ht
      rw [← (Prod.mk.inj (Option.some.inj ht)).1]
      exact huinv
  | newSocket sock =>
    rw [← Option.some.inj h]
    unfold newSocket
    rw [hallocate]
    exact hinv.of_eq rfl rfl rfl hinv.noReuse hinv.noClosed (Nat.le_add_right _ _)
  | closeSocket fd =>
    rw [← Option.some.inj h]
    unfold closeSocket
    split
    next => exact hinv
    next =>
      have hfree : s.allocator.freeHandle (maskHandle fd) = s.allocator := by
        unfold HandleAllocator.freeHandle
        rw [if_neg (by rw [hinv.noReuse]; exact Bool.false_ne_true)]
      rw [hfree]
      exact hinv.of_eq rfl rfl rfl hinv.noReuse hinv.noClosed (Nat.le_refl _)
  | allocate =>
    rw [← Option.some.inj h, hallocate]
    exact hinv.of_eq rfl rfl rfl hinv.noReuse hinv.noClosed (Nat.le_add_right _ _)

theorem reached_inv (h : Reached s) (hbound : s.allocator.handle ≤ 0x100000000) : Inv s := by
  induction h with
  | initial => exact inv_initial
  | step _ hparses hstep ih =>
    have hle := Nat.le_trans (step_counter hstep) hbound
    exact step_inv (ih hle) hle hparses hstep

theorem Inv.parent_open (h : Inv s) {x : Nat} (hopen : s.Open x) (hkind : (s.objects x).kind ≠ .wininetInstance) :
    ∃ p, s.parent x = some p ∧ s.Open p ∧ (s.objects x).kind.level + 1 = (s.objects p).kind.level := by
  obtain ⟨p, hp⟩ := Option.isSome_iff_exists.mp (h.hasParent (h.entry hopen).1 hkind)
  exact ⟨p, hp, h.rooted hopen hp, (h.level hp).2⟩

/-- The law holds after every sequence of calls whose handles fit 32 bits. -/
theorem reached_wininetLaw (h : Reached s) (hbound : s.allocator.handle ≤ 0x100000000) : WininetLaw s := by
  have hinv := reached_inv h hbound
  refine ⟨fun {x} hopen hkind => ?_, fun {x} hopen hkind => ?_, fun {handle x} hget => ?_,
    fun {handle} hget => closeWininetObject_none hget⟩
  · obtain ⟨p, hp, hpopen, hlevel⟩ := hinv.parent_open hopen (by rw [hkind]; decide)
    refine ⟨p, hp, hpopen, ?_⟩
    rw [hkind] at hlevel
    cases hk : (s.objects p).kind with
    | wininetInstance => rfl
    | wininetRequest => rw [hk] at hlevel; cases hlevel
    | wininetSession => rw [hk] at hlevel; cases hlevel
  · obtain ⟨p, hp, hpopen, hlevel⟩ := hinv.parent_open hopen (by rw [hkind]; decide)
    refine ⟨p, hp, hpopen, ?_⟩
    rw [hkind] at hlevel
    cases hk : (s.objects p).kind with
    | wininetSession => rfl
    | wininetRequest => rw [hk] at hlevel; cases hlevel
    | wininetInstance => rw [hk] at hlevel; cases hlevel
  · have hlevel : (s.objects x).kind.level < recursionLimit := by
      cases (s.objects x).kind with
      | wininetRequest => decide
      | wininetSession => decide
      | wininetInstance => decide
    obtain ⟨t, ht, _, hcloses⟩ := closesBelow recursionLimit hinv hbound hget hlevel
    exact ⟨t, ht, hcloses.sockets, hcloses.lookup⟩

theorem reached_wininetLaw_session : WininetLaw ((initial.newWininetInst.newSession 0x80).newRequest 0x84 true) :=
  have hinst : Reached initial.newWininetInst := @Reached.step _ _ .newWininetInst Reached.initial trivial rfl
  have hsession : Reached (initial.newWininetInst.newSession 0x80) :=
    @Reached.step _ _ (.newSession 0x80) hinst trivial rfl
  reached_wininetLaw (@Reached.step _ _ (.newRequest 0x84 true) hsession rfl rfl) (by decide)

/-! The handles that do not fit 32 bits. -/

/-- The state after some handle values of other tables. -/
def allocated (n : Nat) : NetworkManager :=
  { initial with allocator := { reuseClosedHandles := false, handle := 0x80 + 4 * n } }

theorem allocated_reached (n : Nat) : Reached (allocated n) := by
  induction n with
  | zero => exact Reached.initial
  | succ n ih =>
    refine @Reached.step _ _ .allocate ih trivial ?_
    show some { allocated n with allocator := ⟨false, 0x80 + 4 * n + 4, []⟩ } = _
    rw [Nat.add_assoc]
    rfl

/-- A session whose handle is 0x100000000 stays open when its instance is closed. -/
theorem reached_not_wininetLaw : ∃ s, Reached s ∧ ¬WininetLaw s := by
  have hinst : Reached (allocated 0x3FFFFFDF).newWininetInst :=
    @Reached.step _ _ .newWininetInst (allocated_reached 0x3FFFFFDF) trivial rfl
  have hsession : Reached ((allocated 0x3FFFFFDF).newWininetInst.newSession 0xFFFFFFFC) :=
    @Reached.step _ _ (.newSession 0xFFFFFFFC) hinst trivial rfl
  have hclosed : ∃ s, ((allocated 0x3FFFFFDF).newWininetInst.newSession 0xFFFFFFFC).step
      (.closeWininetObject 0xFFFFFFFC) = some s ∧ s.Open 1 ∧ ¬s.Open 0 ∧
        (s.objects 1).kind = .wininetSession ∧ s.parent 1 = some 0 :=
    ⟨_, rfl, rfl, (fun h => by cases h), rfl, rfl⟩
  obtain ⟨s, hs, hopen, hno, hkind, hparent⟩ := hclosed
  refine ⟨s, @Reached.step _ s (.closeWininetObject 0xFFFFFFFC) hsession trivial hs, fun hlaw => ?_⟩
  obtain ⟨p, hp, hpopen, _⟩ := hlaw.session hopen hkind
  rw [hparent] at hp
  rw [← Option.some.inj hp] at hpopen
  exact hno hpopen

end NetworkManager

end Speakeasy
