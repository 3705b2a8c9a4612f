import Speakeasy.HandleTables

namespace Speakeasy

namespace HandleState

variable {s₀ s : HandleState} {history : HandleHistory}

theorem Inv.maskHandle_eq (h : Inv s₀ s history) (hbound : s.allocator.handle ≤ 0x100000000)
    {x : Nat × Nat × Nat} (hx : x ∈ openHandles history) : maskHandle x.2.1 = x.2.1 := by
  have := h.lt hx
  unfold maskHandle
  omega

/-- An open handle is no pseudo handle. -/
theorem Inv.pseudo_none (h : Inv s₀ s history) (hbound : s.allocator.handle ≤ 0x100000000)
    {x : Nat × Nat × Nat} (hx : x ∈ openHandles history) {t handle : Nat}
    (hm : maskHandle handle = maskHandle x.2.1) : s.pseudo t handle = none := by
  have hlt := h.lt hx
  rw [h.maskHandle_eq hbound hx] at hm
  unfold pseudo
  split
  · unfold getPseudoHandleObject
    rw [if_neg, if_neg]
    · rw [hm, currentThreadHandle]
      omega
    · rw [hm, currentProcessHandle]
      omega
  · rfl

/-- A handle that is not open is in no table. -/
theorem Inv.lookup_none (h : Inv s₀ s history) {t handle : Nat}
    (hopen : ∀ x ∈ openHandles history, ¬ Names t handle x) :
    (s.tables t).objects.lookup (maskHandle handle) = none := by
  cases hlookup : (s.tables t).objects.lookup (maskHandle handle) with
  | none => rfl
  | some obj =>
    have hmem := (h.lookup t _ obj).mp hlookup
    have hidem : maskHandle (maskHandle handle) = maskHandle handle := Nat.mod_mod _ _
    exact absurd ⟨rfl, hidem⟩ (hopen _ hmem)

theorem Inv.close (h : Inv s₀ s history) (hbound : s.allocator.handle ≤ 0x100000000)
    (t handle : Nat) : Inv s₀ (s.step (.close t handle)).1
      ((.close t handle, (s.step (.close t handle)).2) :: history) := by
  by_cases hopen : ∃ x ∈ openHandles history, Names t handle x
  · obtain ⟨x, hx, ht, hm⟩ := hopen
    have hmem : (t, maskHandle handle, x.2.2) ∈ openHandles history := by
      rw [h.maskHandle_eq hbound hx] at hm
      rw [← ht, ← hm]
      exact hx
    exact (h.close_open hbound hmem (h.pseudo_none hbound hx hm.symm)).2
  · have hopen : ∀ x ∈ openHandles history, ¬ Names t handle x := fun x hx hn => hopen ⟨x, hx, hn⟩
    have hsame : (s.close t handle).1 = s := by
      unfold HandleState.close
      split
      · rfl
      · rw [h.lookup_none hopen]
    have hhistory : openHandles ((.close t handle, (s.step (.close t handle)).2) :: history) =
        openHandles history := by
      rw [openHandles]
      apply List.filter_eq_self.mpr
      intro x hx
      exact decide_eq_true (hopen x hx)
    show Inv s₀ (s.close t handle).1 _
    rw [hsame]
    refine ⟨?_, ?_, ?_, ?_⟩
    · rw [hhistory]
      exact h.good
    · rw [hhistory]
      exact h.distinct
    · rw [hhistory]
      exact h.lookup
    · unfold handleCount
      rw [hhistory]
      exact h.refs

theorem Inv.step (h : Inv s₀ s history) (op : HandleOp)
    (hbound : (s.step op).1.allocator.handle ≤ 0x100000000)
    (hle : s.allocator.handle ≤ (s.step op).1.allocator.handle) :
    Inv s₀ (s.step op).1 ((op, (s.step op).2) :: history) := by
  cases op with
  | newHandle t obj => exact h.newHandle t obj
  | close t handle => exact h.close (Nat.le_trans hle hbound) t handle
  | allocate =>
    refine ⟨?_, h.distinct, h.lookup, h.refs⟩
    apply h.good.allocate.2.mono
    intro x hx
    exact List.mem_cons_of_mem _ hx
  | setCurrent process thread => exact ⟨h.good, h.distinct, h.lookup, h.refs⟩

theorem step_handle_le (s : HandleState) (op : HandleOp) :
    s.allocator.handle ≤ (s.step op).1.allocator.handle := by
  cases op with
  | newHandle t obj => exact s.allocator.allocateHandle_le
  | close t handle =>
    show _ ≤ (s.close t handle).1.allocator.handle
    unfold HandleState.close
    split
    · exact Nat.le_refl _
    · split
      · exact Nat.le_refl _
      · exact Nat.le_of_eq (HandleAllocator.freeHandle_handle _ _).symm
  | allocate => exact s.allocator.allocateHandle_le
  | setCurrent process thread => exact Nat.le_refl _

theorem run_inv (run : HandleRun s₀ s history) (h₀ : Inv s₀ s₀ [])
    (hbound : s.allocator.handle ≤ 0x100000000) : Inv s₀ s history := by
  induction run with
  | start => exact h₀
  | @next s history op run ih =>
    have hle := s.step_handle_le op
    exact (ih (Nat.le_trans hle hbound)).step op hbound hle

theorem Inv.consistent (h : Inv s₀ s history) (hbound : s.allocator.handle ≤ 0x100000000) :
    HandlesConsistent s₀ s history where
  distinct := h.distinct
  get_open t handle obj hmem handle' hm := by
    have hlookup := (h.lookup t handle obj).mpr hmem
    have hmask : maskHandle handle = handle := h.maskHandle_eq hbound hmem
    unfold get
    rw [h.pseudo_none hbound hmem hm, hm, hmask]
    exact hlookup
  get_closed t handle hopen := by
    unfold get
    rw [h.lookup_none hopen]
    cases s.pseudo t handle <;> rfl
  refs := h.refs
  close_open t handle obj hmem handle' hm := by
    have hmask : maskHandle handle = handle := h.maskHandle_eq hbound hmem
    rw [hmask] at hm
    apply (h.close_open hbound (hm ▸ hmem) (h.pseudo_none hbound hmem (hm.trans hmask.symm))).1
  close_closed t handle hopen hpseudo := close_not_open hpseudo (h.lookup_none hopen)
  close_pseudo t handle obj hpseudo := if_pos (by rw [hpseudo]; rfl)

/-- While the values that were given out fit 32 bits, the tables hold exactly the open handles. -/
theorem run_handlesConsistent {reuse : Bool} {hasPseudo : Nat → Bool} {refCnt : Nat → Option Int}
    {process thread : Option Nat} {s : HandleState} {history : HandleHistory}
    (run : HandleRun (initial reuse hasPseudo refCnt process thread) s history)
    (hbound : s.allocator.handle ≤ 0x100000000) :
    HandlesConsistent (initial reuse hasPseudo refCnt process thread) s history :=
  (run_inv run (inv_initial ..) hbound).consistent hbound

/-- Two tables, a handle that is closed twice and its value that is given out again. -/
theorem run_handlesConsistent_reused : HandlesConsistent
    (initial true (fun _ => false) (fun _ => some 0) none none)
    (((((initial true (fun _ => false) (fun _ => some 0) none none).step (.newHandle 0 7)).1.step
      (.close 0 0x100000080)).1.step (.close 0 0x80)).1.step (.newHandle 1 8)).1
    [(.newHandle 1 8, .handle 0x80), (.close 0 0x80, .closed false),
      (.close 0 0x100000080, .closed true), (.newHandle 0 7, .handle 0x80)] :=
  run_handlesConsistent ((((HandleRun.start.next (.newHandle 0 7)).next (.close 0 0x100000080)).next
    (.close 0 0x80)).next (.newHandle 1 8)) (by decide)

def newHandles (s : HandleState) : Nat → HandleState
  | 0 => s
  | n + 1 => ((newHandles s n).newHandle 0 7).1

theorem newHandles_run (s : HandleState) (n : Nat) : ∃ history, HandleRun s (newHandles s n) history := by
  induction n with
  | zero => exact ⟨[], .start⟩
  | succ n ih =>
    obtain ⟨history, run⟩ := ih
    exact ⟨_, run.next (.newHandle 0 7)⟩

theorem newHandles_allocator (reuse : Bool) (n : Nat) :
    (newHandles (initial reuse (fun _ => true) (fun _ => none) (some 1) none) n).allocator =
      ⟨reuse, 0x80 + 4 * n, []⟩ := by
  induction n with
  | zero => rfl
  | succ n ih =>
    show (HandleAllocator.allocateHandle _).2 = _
    rw [ih]
    rfl

/-- The handle that comes after the last one of 32 bits is not found. -/
theorem newHandles_overflow {n : Nat} (hn : 0x80 + 4 * n = 0x100000000) : ∃ s history,
    HandleRun (initial false (fun _ => true) (fun _ => none) (some 1) none) s history ∧
      (0, 0x100000000, 7) ∈ openHandles history ∧ s.get 0 0x100000000 = none := by
  obtain ⟨history, run⟩ := newHandles_run (initial false (fun _ => true) (fun _ => none) (some 1) none) n
  have hallocator := newHandles_allocator false n
  generalize newHandles (initial false (fun _ => true) (fun _ => none) (some 1) none) n = s at *
  have hinv : Inv (initial false (fun _ => true) (fun _ => none) (some 1) none) s history := by
    apply run_inv run (inv_initial ..)
    rw [hallocator]
    exact Nat.le_of_eq hn
  have hhandle : s.allocator.allocateHandle.1 = 0x100000000 := by
    rw [hallocator]
    exact hn
  have hinv' := hinv.newHandle 0 7
  refine ⟨_, _, run.next (.newHandle 0 7), ?_, ?_⟩
  · rw [← hhandle]
    exact List.mem_cons_self
  · have hlookup : ((s.step (.newHandle 0 7)).1.tables 0).objects.lookup 0 = none := by
      cases hlookup : ((s.step (.newHandle 0 7)).1.tables 0).objects.lookup 0 with
      | none => rfl
      | some obj =>
        have hle : 0x80 ≤ 0 := (hinv'.lt ((hinv'.lookup 0 0 obj).mp hlookup)).1
        exact absurd hle (by decide)
    have hpseudo : (s.step (.newHandle 0 7)).1.pseudo 0 0x100000000 = none := by
      unfold pseudo
      split <;> rfl
    unfold get
    rw [hpseudo]
    exact hlookup

/-- A pseudo handle is closed although it is not open, and a handle above 32 bits is not found. -/
theorem run_not_handlesConsistent :
    ((initial false (fun _ => true) (fun _ => none) (some 1) none).close 0 0xFFFFFFFF).2 = true ∧
    ∃ s history, HandleRun (initial false (fun _ => true) (fun _ => none) (some 1) none) s history ∧
      (0, 0x100000000, 7) ∈ openHandles history ∧ s.get 0 0x100000000 = none :=
  ⟨rfl, newHandles_overflow (show 0x80 + 4 * 0x3FFFFFE0 = 0x100000000 by omega)⟩

end HandleState

end Speakeasy
