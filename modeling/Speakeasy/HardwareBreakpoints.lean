import Speakeasy.ApiRegistry
import Speakeasy.FoldRuns

namespace Speakeasy

/-- The debug registers of a thread. -/
structure DebugRegisters where
  dr0 : Nat := 0
  dr1 : Nat := 0
  dr2 : Nat := 0
  dr3 : Nat := 0
  dr6 : Nat := 0
  dr7 : Nat := 0
deriving DecidableEq, Repr

namespace DebugRegisters

def dr (r : DebugRegisters) : Nat → Nat
  | 0 => r.dr0
  | 1 => r.dr1
  | 2 => r.dr2
  | _ => r.dr3

/-- Dr7 enables the breakpoint, and it is one on execution. -/
def Enabled (r : DebugRegisters) (i : Nat) : Prop :=
  (r.dr7 >>> (2 * i)) &&& 3 ≠ 0 ∧ (r.dr7 >>> (16 + 4 * i)) &&& 3 = 0

instance (r : DebugRegisters) (i : Nat) : Decidable (r.Enabled i) := inferInstanceAs (Decidable (_ ∧ _))

/-- `breakpoints.setdefault(address, i)` for an enabled breakpoint. -/
def addBreakpoint (r : DebugRegisters) (breakpoints : PyDict Nat Nat) (i : Nat) : PyDict Nat Nat :=
  if r.Enabled i ∧ breakpoints.lookup (r.dr i) = none then breakpoints.insert (r.dr i) i else breakpoints

def executeBreakpoints (r : DebugRegisters) : PyDict Nat Nat := (List.range 4).foldl r.addBreakpoint ∅

/-- The registers after a hit of a breakpoint. -/
def setHit (r : DebugRegisters) (i : Nat) : DebugRegisters := { r with dr6 := r.dr6 ||| 1 <<< i }

/-- An enabled execute breakpoint has the address. -/
def Armed (r : DebugRegisters) (a : Nat) : Prop := ∃ i ∈ List.range 4, r.Enabled i ∧ r.dr i = a

instance (r : DebugRegisters) (a : Nat) : Decidable (r.Armed a) :=
  inferInstanceAs (Decidable (∃ i ∈ List.range 4, _))

variable {r : DebugRegisters} {breakpoints : PyDict Nat Nat} {a i j : Nat}

theorem lookup_addBreakpoint (hi : (r.addBreakpoint breakpoints i).lookup a = some j) :
    breakpoints.lookup a = some j ∨ (j = i ∧ r.Enabled i ∧ r.dr i = a) := by
  unfold addBreakpoint at hi
  split at hi
  next h =>
    by_cases ha : a = r.dr i
    · rw [ha, AList.lookup_insert] at hi
      exact Or.inr ⟨(Option.some.inj hi).symm, h.1, ha.symm⟩
    · rw [AList.lookup_insert_ne ha] at hi
      exact Or.inl hi
  next => exact Or.inl hi

theorem isSome_addBreakpoint : ((r.addBreakpoint breakpoints i).lookup a).isSome ↔
    (breakpoints.lookup a).isSome ∨ (r.Enabled i ∧ r.dr i = a) := by
  unfold addBreakpoint
  by_cases ha : a = r.dr i
  · subst ha
    split
    next h => simp [AList.lookup_insert, h.1]
    next h =>
      by_cases hen : r.Enabled i
      · have hsome : (breakpoints.lookup (r.dr i)).isSome :=
          Option.isSome_iff_ne_none.mpr fun hnone => h ⟨hen, hnone⟩
        simp [hsome]
      · simp [hen]
  · have hne : ¬r.dr i = a := fun heq => ha heq.symm
    split
    next => simp [AList.lookup_insert_ne ha, hne]
    next => simp [hne]

/-- A found breakpoint is enabled at the address, and every enabled one is found. -/
theorem lookup_executeBreakpoints (h : r.executeBreakpoints.lookup a = some i) :
    i ∈ List.range 4 ∧ r.Enabled i ∧ r.dr i = a := by
  have hfold : ∀ (indices : List Nat) (breakpoints : PyDict Nat Nat),
      (indices.foldl r.addBreakpoint breakpoints).lookup a = some i →
        breakpoints.lookup a = some i ∨ (i ∈ indices ∧ r.Enabled i ∧ r.dr i = a) := by
    intro indices
    induction indices with
    | nil => exact fun _ h => Or.inl h
    | cons j indices ih =>
      intro breakpoints h
      rcases ih _ h with h | ⟨hmem, hen⟩
      · rcases lookup_addBreakpoint h with h | ⟨rfl, hen⟩
        · exact Or.inl h
        · exact Or.inr ⟨List.mem_cons_self, hen⟩
      · exact Or.inr ⟨List.mem_cons_of_mem _ hmem, hen⟩
  rcases hfold _ _ h with hempty | h
  · rw [AList.lookup_empty] at hempty
    cases hempty
  · exact h

theorem isSome_executeBreakpoints : (r.executeBreakpoints.lookup a).isSome ↔ r.Armed a := by
  have hfold : ∀ (indices : List Nat) (breakpoints : PyDict Nat Nat),
      ((indices.foldl r.addBreakpoint breakpoints).lookup a).isSome ↔
        (breakpoints.lookup a).isSome ∨ ∃ i ∈ indices, r.Enabled i ∧ r.dr i = a := by
    intro indices
    induction indices with
    | nil => simp
    | cons j indices ih =>
      intro breakpoints
      rw [List.foldl_cons, ih, isSome_addBreakpoint, or_assoc, List.exists_mem_cons_iff]
  rw [executeBreakpoints, hfold, AList.lookup_empty]
  simp [Armed]

theorem mem_keys_executeBreakpoints : a ∈ r.executeBreakpoints.keys ↔ r.Armed a := by
  rw [← AList.mem_keys, ← AList.lookup_isSome, isSome_executeBreakpoints]

/-- The status register is not in the choice of the breakpoints. -/
theorem armed_setHit : (r.setHit i).Armed a ↔ r.Armed a := Iff.rfl

end DebugRegisters

/-- The threads of the emulator and the hooks of `HardwareBreakpoints`. -/
structure BreakSession where
  threads : Nat → DebugRegisters
  current : Option Nat
  isKernelMode : Bool
  hooks : List Nat
  resume : Option (Option Nat × Nat)

namespace BreakSession

/-- The breakpoints to hook. -/
def wanted (s : BreakSession) : PyDict Nat Nat :=
  match s.current with
  | some t => if s.isKernelMode then ∅ else (s.threads t).executeBreakpoints
  | none => ∅

def update (s : BreakSession) : BreakSession :=
  let kept := s.hooks.filter (· ∈ s.wanted.keys)
  { s with hooks := kept ++ s.wanted.keys.filter (· ∉ kept) }

def setCurrentThread (s : BreakSession) (t : Option Nat) : BreakSession := update { s with current := t }

def setDebugRegisters (s : BreakSession) (t : Nat) (r : DebugRegisters) : BreakSession :=
  let s := { s with threads := Function.update s.threads t r }
  if some t = s.current then s.update else s

def resumeAt (s : BreakSession) (a : Nat) : BreakSession :=
  { s with resume := if a ∈ s.hooks then some (s.current, a) else none }

/-- The breakpoint of the current thread raises STATUS_SINGLE_STEP. -/
def raiseHit (s : BreakSession) (a : Nat) : Bool × BreakSession :=
  match s.current with
  | none => (false, s)
  | some t =>
    match (s.threads t).executeBreakpoints.lookup a with
    | none => (false, s)
    | some index =>
      (true, { s with threads := Function.update s.threads t ((s.threads t).setHit index) })

def hit (s : BreakSession) (a : Nat) : Bool × BreakSession :=
  match s.resume with
  | some resume => if resume = (s.current, a) then (false, { s with resume := none })
    else raiseHit { s with resume := none } a
  | none => s.raiseHit a

/-- The engine runs the hook of an address before the instruction. -/
def exec (s : BreakSession) (a : Nat) : Bool × BreakSession :=
  if a ∈ s.hooks then s.hit a else (false, s)

variable {s : BreakSession} {a t : Nat}

theorem mem_update_hooks : a ∈ s.update.hooks ↔ a ∈ s.wanted.keys := by
  simp only [update, List.mem_append, List.mem_filter, decide_eq_true_eq]
  by_cases hhook : a ∈ s.hooks
  · simp [hhook]
  · simp [hhook]

end BreakSession

inductive BreakOp
  | setCurrentThread (t : Option Nat)
  | setDebugRegisters (t : Nat) (r : DebugRegisters)
  | resumeAt (a : Nat)
  | exec (a : Nat)

/-- A session with the resumes that are still unused, each as a thread and an address. -/
structure BreakHistory where
  session : BreakSession
  unused : Nat → Nat → Bool

namespace BreakHistory

open DebugRegisters

/-- A resume of a thread at an address, made or used. -/
def mark (unused : Nat → Nat → Bool) (t : Option Nat) (a : Nat) (b : Bool) : Nat → Nat → Bool :=
  fun t' a' => if some t' = t ∧ a' = a then b else unused t' a'

def step (h : BreakHistory) : BreakOp → BreakHistory
  | .setCurrentThread t => { h with session := h.session.setCurrentThread t }
  | .setDebugRegisters t r => { h with session := h.session.setDebugRegisters t r }
  | .resumeAt a => ⟨h.session.resumeAt a, mark h.unused h.session.current a true⟩
  | .exec a => ⟨(h.session.exec a).2, mark h.unused h.session.current a false⟩

/-- The hooks are the enabled execute breakpoints of the current thread. -/
def Hooked (s : BreakSession) : Prop :=
  ∀ a, a ∈ s.hooks ↔ ∃ t, s.current = some t ∧ (s.threads t).Armed a

/-- The law of an instruction of a thread. -/
structure ExecLaw (h : BreakHistory) (t a : Nat) : Prop where
  raises : (h.session.exec a).1 = true ↔ (h.session.threads t).Armed a ∧ h.unused t a = false
  status : (h.session.exec a).1 = true → ∃ i ∈ List.range 4, (h.session.threads t).Enabled i ∧
    (h.session.threads t).dr i = a ∧ (h.session.exec a).2.threads =
      Function.update h.session.threads t ((h.session.threads t).setHit i)
  quiet : (h.session.exec a).1 = false → (h.session.exec a).2.threads = h.session.threads

/-- The law of one step. -/
def Law (h : BreakHistory) (op : BreakOp) : Prop :=
  Hooked (h.step op).session ∧
  match op with
  | .exec a => ∀ t, h.session.current = some t → h.ExecLaw t a
  | _ => True

/-- No other enabled breakpoint has an unused resume. -/
def Alone (h : BreakHistory) (a : Nat) : Prop :=
  ∀ t' a', (h.session.threads t').Armed a' → h.unused t' a' = true → h.session.current = some t' ∧ a' = a

/-- A resume is made, or a breakpoint is reached, while no resume for another one is unused; and a breakpoint
is enabled when its resume is unused exactly when it is in the slot. -/
def Good (h : BreakHistory) : BreakOp → Prop
  | .setCurrentThread _ => True
  | .setDebugRegisters t r => ∀ a, r.Armed a → ¬(h.session.threads t).Armed a →
    (h.unused t a = true ↔ h.session.resume = some (some t, a))
  | .resumeAt a => h.Alone a
  | .exec a => a ∈ h.session.hooks → h.Alone a

/-- What a run with one resume at a time keeps. -/
structure Inv (h : BreakHistory) : Prop where
  user : h.session.isKernelMode = false
  hooked : Hooked h.session
  agree : ∀ t a, (h.session.threads t).Armed a →
    (h.unused t a = true ↔ h.session.resume = some (some t, a))

variable {h : BreakHistory} {a t : Nat}

theorem hooked_update {s : BreakSession} (huser : s.isKernelMode = false) : Hooked s.update := by
  intro a
  rw [BreakSession.mem_update_hooks]
  show a ∈ s.wanted.keys ↔ ∃ t, s.current = some t ∧ (s.threads t).Armed a
  unfold BreakSession.wanted
  cases hc : s.current with
  | none => simp
  | some t =>
    simp only [huser, Bool.false_eq_true, if_false, Option.some.injEq, exists_eq_left']
    exact mem_keys_executeBreakpoints

theorem Inv.setCurrentThread (hi : Inv h) (t : Option Nat) : Inv (h.step (.setCurrentThread t)) where
  user := hi.user
  hooked := hooked_update hi.user
  agree := hi.agree

theorem Inv.setDebugRegisters (hi : Inv h) {r : DebugRegisters} (hgood : h.Good (.setDebugRegisters t r)) :
    Inv (h.step (.setDebugRegisters t r)) := by
  have hagree : ∀ t' a, (Function.update h.session.threads t r t').Armed a →
      (h.unused t' a = true ↔ h.session.resume = some (some t', a)) := by
    intro t' a harmed
    by_cases ht : t' = t
    · subst ht
      rw [Function.update_self] at harmed
      by_cases hold : (h.session.threads t').Armed a
      · exact hi.agree t' a hold
      · exact hgood a harmed hold
    · rw [Function.update_of_ne ht] at harmed
      exact hi.agree t' a harmed
  by_cases hcurrent : some t = h.session.current
  · have hstep : h.step (.setDebugRegisters t r) =
        ⟨BreakSession.update { h.session with threads := Function.update h.session.threads t r }, h.unused⟩ := by
      simp only [step, BreakSession.setDebugRegisters, if_pos hcurrent]
    rw [hstep]
    exact ⟨hi.user, hooked_update hi.user, hagree⟩
  · have hstep : h.step (.setDebugRegisters t r) =
        ⟨{ h.session with threads := Function.update h.session.threads t r }, h.unused⟩ := by
      simp only [step, BreakSession.setDebugRegisters, if_neg hcurrent]
    rw [hstep]
    refine ⟨hi.user, fun a => ?_, hagree⟩
    rw [show a ∈ h.session.hooks ↔ _ from hi.hooked a]
    refine exists_congr fun t' => and_congr_right fun ht' => ?_
    have hne : t' ≠ t := by
      rintro rfl
      exact hcurrent ht'.symm
    show _ ↔ (Function.update h.session.threads t r t').Armed a
    rw [Function.update_of_ne hne]

theorem mark_other {unused : Nat → Nat → Bool} {c : Option Nat} {b : Bool} {t' a' : Nat}
    (hne : ¬(some t' = c ∧ a' = a)) : mark unused c a b t' a' = unused t' a' := if_neg hne

theorem Inv.resumeAt (hi : Inv h) (hgood : h.Alone a) : Inv (h.step (.resumeAt a)) where
  user := hi.user
  hooked := hi.hooked
  agree := by
    intro t' a' harmed
    show mark h.unused h.session.current a true t' a' = true ↔
      (if a ∈ h.session.hooks then some (h.session.current, a) else none) = some (some t', a')
    by_cases hown : some t' = h.session.current ∧ a' = a
    · obtain ⟨hc, rfl⟩ := hown
      have hhook : a' ∈ h.session.hooks := (hi.hooked a').mpr ⟨t', hc.symm, harmed⟩
      rw [mark, if_pos ⟨hc, rfl⟩, if_pos hhook, hc]
      exact iff_of_true rfl rfl
    · rw [mark_other hown]
      have hused : ¬h.unused t' a' = true := by
        intro hun
        obtain ⟨hc, ha⟩ := hgood t' a' harmed hun
        exact hown ⟨hc.symm, ha⟩
      refine iff_of_false hused fun heq => ?_
      split at heq
      next =>
        obtain ⟨hc, ha⟩ := Prod.mk.inj (Option.some.inj heq)
        exact hown ⟨hc.symm, ha.symm⟩
      next => cases heq

/-- The hit of an enabled breakpoint raises. -/
theorem raiseHit_armed {s : BreakSession} (hc : s.current = some t) (harmed : (s.threads t).Armed a) :
    ∃ i ∈ List.range 4, (s.threads t).Enabled i ∧ (s.threads t).dr i = a ∧
      s.raiseHit a =
        (true, { s with threads := Function.update s.threads t ((s.threads t).setHit i) }) := by
  obtain ⟨i, hi⟩ := Option.isSome_iff_exists.mp (isSome_executeBreakpoints.mpr harmed)
  obtain ⟨hmem, hen, hdr⟩ := lookup_executeBreakpoints hi
  refine ⟨i, hmem, hen, hdr, ?_⟩
  simp only [BreakSession.raiseHit, hc, hi]

/-- An instruction that is not at an enabled breakpoint runs. -/
theorem Inv.exec_unarmed (hi : Inv h) (hc : h.session.current = some t)
    (harmed : ¬(h.session.threads t).Armed a) : h.session.exec a = (false, h.session) := by
  refine if_neg fun hhook => ?_
  obtain ⟨t', ht', harmed'⟩ := (hi.hooked a).mp hhook
  rw [hc] at ht'
  cases ht'
  exact harmed harmed'

theorem Inv.mem_hooks (hi : Inv h) (hc : h.session.current = some t)
    (harmed : (h.session.threads t).Armed a) : a ∈ h.session.hooks := (hi.hooked a).mpr ⟨t, hc, harmed⟩

/-- An unused resume lets the instruction run and is used. -/
theorem Inv.exec_resumed (hi : Inv h) (hc : h.session.current = some t)
    (harmed : (h.session.threads t).Armed a) (hunused : h.unused t a = true) :
    h.session.exec a = (false, { h.session with resume := none }) := by
  have hresume := (hi.agree t a harmed).mp hunused
  rw [BreakSession.exec, if_pos (hi.mem_hooks hc harmed)]
  simp only [BreakSession.hit, hresume, hc, if_true]

/-- Without an unused resume the breakpoint raises. -/
theorem Inv.exec_armed (hi : Inv h) (hc : h.session.current = some t)
    (harmed : (h.session.threads t).Armed a) (hunused : h.unused t a = false) :
    h.session.exec a = BreakSession.raiseHit { h.session with resume := none } a := by
  have hresume : h.session.resume ≠ some (some t, a) := by
    intro heq
    have htrue := (hi.agree t a harmed).mpr heq
    rw [hunused] at htrue
    cases htrue
  rw [BreakSession.exec, if_pos (hi.mem_hooks hc harmed)]
  cases hslot : h.session.resume with
  | none =>
    simp only [BreakSession.hit, hslot]
    rw [← hslot]
  | some resume =>
    rw [hslot] at hresume
    have hne : resume ≠ (h.session.current, a) := by
      rw [hc]
      exact fun heq => hresume (congrArg some heq)
    simp only [BreakSession.hit, hslot, if_neg hne]

theorem Inv.execLaw (hi : Inv h) (hc : h.session.current = some t) : h.ExecLaw t a := by
  by_cases harmed : (h.session.threads t).Armed a
  · cases hunused : h.unused t a with
    | true =>
      have hexec := hi.exec_resumed hc harmed hunused
      constructor
      · rw [hexec, hunused]
        simp
      · rw [hexec]
        intro hraise
        cases hraise
      · rw [hexec]
        exact fun _ => rfl
    | false =>
      obtain ⟨i, hmem, hen, hdr, hraise⟩ := raiseHit_armed (s := { h.session with resume := none }) hc harmed
      have hexec := (hi.exec_armed hc harmed hunused).trans hraise
      constructor
      · rw [hexec, hunused]
        exact iff_of_true rfl ⟨harmed, rfl⟩
      · rw [hexec]
        exact fun _ => ⟨i, hmem, hen, hdr, rfl⟩
      · rw [hexec]
        intro hquiet
        cases hquiet
  · have hexec := hi.exec_unarmed hc harmed
    constructor
    · rw [hexec]
      exact iff_of_false (fun hraise => by cases hraise) fun hboth => harmed hboth.1
    · rw [hexec]
      intro hraise
      cases hraise
    · rw [hexec]
      exact fun _ => rfl

theorem mark_own (unused : Nat → Nat → Bool) (t a : Nat) (b : Bool) :
    mark unused (some t) a b t a = b := if_pos ⟨rfl, rfl⟩

/-- The threads after an instruction have the same breakpoints, and the hooks stay. -/
theorem exec_frame (s : BreakSession) (a : Nat) :
    (s.exec a).2.current = s.current ∧ (s.exec a).2.isKernelMode = s.isKernelMode ∧
      (s.exec a).2.hooks = s.hooks ∧
      ∀ t b, ((s.exec a).2.threads t).Armed b ↔ (s.threads t).Armed b := by
  have hraise : ∀ s : BreakSession, (s.raiseHit a).2.current = s.current ∧
      (s.raiseHit a).2.isKernelMode = s.isKernelMode ∧ (s.raiseHit a).2.hooks = s.hooks ∧
      ∀ t b, ((s.raiseHit a).2.threads t).Armed b ↔ (s.threads t).Armed b := by
    intro s
    unfold BreakSession.raiseHit
    split
    next => exact ⟨rfl, rfl, rfl, fun _ _ => Iff.rfl⟩
    next c hc =>
      split
      next => exact ⟨rfl, rfl, rfl, fun _ _ => Iff.rfl⟩
      next i hi =>
        refine ⟨rfl, rfl, rfl, fun t b => ?_⟩
        by_cases htc : t = c
        · subst htc
          simp only [Function.update_self]
          exact armed_setHit
        · simp only [Function.update_of_ne htc]
  unfold BreakSession.exec
  split
  next =>
    unfold BreakSession.hit
    split
    next =>
      split
      next => exact ⟨rfl, rfl, rfl, fun _ _ => Iff.rfl⟩
      next => exact hraise _
    next => exact hraise _
  next => exact ⟨rfl, rfl, rfl, fun _ _ => Iff.rfl⟩

/-- A reached hook uses up the slot. -/
theorem exec_resume {s : BreakSession} (hhook : a ∈ s.hooks) : (s.exec a).2.resume = none := by
  have hraise : ∀ s : BreakSession, s.resume = none → (s.raiseHit a).2.resume = none := by
    intro s hs
    unfold BreakSession.raiseHit
    split
    next => exact hs
    next =>
      split
      next => exact hs
      next => exact hs
  rw [BreakSession.exec, if_pos hhook]
  unfold BreakSession.hit
  split
  next =>
    split
    next => rfl
    next => exact hraise _ rfl
  next hs => exact hraise _ hs

theorem Inv.exec (hi : Inv h) (hgood : h.Good (.exec a)) : Inv (h.step (.exec a)) := by
  obtain ⟨hcurrent, hkernel, hhooks, harmed⟩ := exec_frame h.session a
  refine ⟨hkernel.trans hi.user, fun b => ?_, fun t b hb => ?_⟩
  · show b ∈ (h.session.exec a).2.hooks ↔ ∃ t, (h.session.exec a).2.current = some t ∧ _
    rw [hhooks, hcurrent]
    exact (hi.hooked b).trans (exists_congr fun t => and_congr_right fun _ => (harmed t b).symm)
  · have hold : (h.session.threads t).Armed b := (harmed t b).mp hb
    show mark h.unused h.session.current a false t b = true ↔ (h.session.exec a).2.resume = some (some t, b)
    by_cases hown : some t = h.session.current ∧ b = a
    · obtain ⟨hc, rfl⟩ := hown
      rw [exec_resume (hi.mem_hooks hc.symm hold), ← hc, mark_own]
      exact iff_of_false Bool.false_ne_true fun heq => by cases heq
    · rw [mark_other hown]
      by_cases hhook : a ∈ h.session.hooks
      · rw [exec_resume hhook]
        refine iff_of_false (fun hun => ?_) fun heq => by cases heq
        obtain ⟨hc, ha⟩ := hgood hhook t b hold hun
        exact hown ⟨hc.symm, ha⟩
      · rw [BreakSession.exec, if_neg hhook]
        exact hi.agree t b hold

theorem Inv.step_law (hi : Inv h) {op : BreakOp} (hgood : h.Good op) : h.Law op ∧ Inv (h.step op) := by
  cases op with
  | setCurrentThread t =>
    have hnext := hi.setCurrentThread t
    exact ⟨⟨hnext.hooked, trivial⟩, hnext⟩
  | setDebugRegisters t r =>
    have hnext := hi.setDebugRegisters hgood
    exact ⟨⟨hnext.hooked, trivial⟩, hnext⟩
  | resumeAt a =>
    have hnext := hi.resumeAt hgood
    exact ⟨⟨hnext.hooked, trivial⟩, hnext⟩
  | exec a =>
    have hnext := hi.exec hgood
    exact ⟨⟨hnext.hooked, fun t hc => hi.execLaw hc⟩, hnext⟩

/-- The start of a user-mode run. -/
structure Start (h : BreakHistory) : Prop where
  user : h.session.isKernelMode = false
  hooks : h.session.hooks = []
  current : h.session.current = none
  resume : h.session.resume = none
  unused : ∀ t a, h.unused t a = false

theorem Start.inv (hs : Start h) : Inv h where
  user := hs.user
  hooked := by
    intro a
    rw [hs.hooks, hs.current]
    simp
  agree := by
    intro t a _
    rw [hs.unused, hs.resume]
    simp

/-- Breakpoints and resumes in the runs in which one resume is unused at a time. -/
theorem run_breakpoints (hs : Start h) (ops : List BreakOp) (hgood : FoldRuns.EachStep step Good h ops) :
    FoldRuns.EachStep step Law h ops :=
  FoldRuns.eachStep_of_inv (I := Inv) (fun _ _ hi hop => hi.step_law hop) hs.inv hgood

def freshBreaks : BreakHistory := ⟨⟨fun _ => {}, none, false, [], none⟩, fun _ _ => false⟩

/-- Dr0 breaks at an address. -/
def breakAt (a : Nat) : DebugRegisters := { dr0 := a, dr7 := 1 }

theorem run_breakpoints_oneThread : FoldRuns.EachStep step Law freshBreaks
    [.setDebugRegisters 1 (breakAt 0x401000), .setCurrentThread (some 1), .exec 0x401000, .resumeAt 0x401000,
      .exec 0x401000, .exec 0x401000] := by
  refine run_breakpoints ⟨rfl, rfl, rfl, rfl, fun _ _ => rfl⟩ _ ?_
  simp only [FoldRuns.eachStep_cons, FoldRuns.eachStep_nil, and_true]
  have hnone : ∀ a t a' : Nat, ¬mark (fun _ _ => false) (some 1) a false t a' = true := by
    intro a t a'
    unfold mark
    split
    next => exact Bool.false_ne_true
    next => exact Bool.false_ne_true
  refine ⟨?_, trivial, ?_, ?_, ?_, ?_⟩
  · exact fun a _ _ => iff_of_false Bool.false_ne_true fun heq => by cases heq
  · exact fun _ t a _ hun => absurd hun Bool.false_ne_true
  · exact fun t a _ hun => absurd hun (hnone _ _ _)
  · intro _ t a _ hun
    by_cases hown : some t = some 1 ∧ a = 0x401000
    · exact ⟨Eq.trans (by decide) hown.1.symm, hown.2⟩
    · exact absurd ((mark_other hown).symm.trans hun) (hnone _ _ _)
  · intro _ t a _ hun
    by_cases hown : some t = some 1 ∧ a = 0x401000
    · exact absurd ((if_pos hown).symm.trans hun) Bool.false_ne_true
    · exact absurd ((mark_other hown).symm.trans ((mark_other hown).symm.trans hun)) (hnone _ _ _)

/-- A hit of another thread takes the resume of the first. -/
theorem breakpoints_twoThreads : ¬FoldRuns.EachStep step Law freshBreaks
    [.setDebugRegisters 1 (breakAt 0x401000), .setDebugRegisters 2 (breakAt 0x402000), .setCurrentThread (some 1),
      .resumeAt 0x401000, .setCurrentThread (some 2), .exec 0x402000, .setCurrentThread (some 1),
      .exec 0x401000] := by
  intro h
  simp only [FoldRuns.eachStep_cons] at h
  have hlaw := (h.2.2.2.2.2.2.2.1.2 1 rfl).raises
  revert hlaw
  decide

end BreakHistory

end Speakeasy
