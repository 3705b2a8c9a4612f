import Mathlib.Data.List.Basic

/-! Runs of a state machine whose steps are total: the state after a list of operations is a fold. -/

namespace FoldRuns

variable {σ ο : Type*} (step : σ → ο → σ)

/-- The state after the operations of a run. -/
def run (s : σ) (ops : List ο) : σ := ops.foldl step s

@[simp] theorem run_nil (s : σ) : run step s [] = s := rfl

@[simp] theorem run_cons (s : σ) (op : ο) (ops : List ο) :
    run step s (op :: ops) = run step (step s op) ops := rfl

theorem run_append (s : σ) (ops rest : List ο) :
    run step s (ops ++ rest) = run step (run step s ops) rest := List.foldl_append

theorem run_concat (s : σ) (ops : List ο) (op : ο) :
    run step s (ops ++ [op]) = step (run step s ops) op := run_append ..

/-- What holds of every state of a run, the first one and the last one included. -/
def Always (P : σ → Prop) (s : σ) (ops : List ο) : Prop := ∀ done, done <+: ops → P (run step s done)

/-- What holds of every step of a run. -/
def EachStep (Q : σ → ο → Prop) (s : σ) (ops : List ο) : Prop :=
  ∀ done op, done ++ [op] <+: ops → Q (run step s done) op

variable {step}

theorem always_nil {P : σ → Prop} {s : σ} : Always step P s [] ↔ P s := by
  simp [Always]

theorem always_cons {P : σ → Prop} {s : σ} {op : ο} {ops : List ο} :
    Always step P s (op :: ops) ↔ P s ∧ Always step P (step s op) ops := by
  constructor
  · intro h
    refine ⟨h [] (List.nil_prefix ..), fun done hdone => ?_⟩
    exact h (op :: done) (List.cons_prefix_cons.mpr ⟨rfl, hdone⟩)
  · rintro ⟨h0, h⟩ done hdone
    cases done with
    | nil => exact h0
    | cons o done =>
      obtain ⟨rfl, hrest⟩ := List.cons_prefix_cons.mp hdone
      exact h done hrest

theorem eachStep_nil {Q : σ → ο → Prop} {s : σ} : EachStep step Q s [] := by
  intro done op h
  simp at h

theorem eachStep_cons {Q : σ → ο → Prop} {s : σ} {op : ο} {ops : List ο} :
    EachStep step Q s (op :: ops) ↔ Q s op ∧ EachStep step Q (step s op) ops := by
  constructor
  · intro h
    refine ⟨h [] op ⟨ops, rfl⟩, fun done o hdone => ?_⟩
    exact h (op :: done) o (List.cons_prefix_cons.mpr ⟨rfl, hdone⟩)
  · rintro ⟨h0, h⟩ done o hdone
    cases done with
    | nil =>
      obtain ⟨rfl, _⟩ := List.cons_prefix_cons.mp hdone
      exact h0
    | cons o' done =>
      obtain ⟨rfl, hrest⟩ := List.cons_prefix_cons.mp hdone
      exact h done o hrest

theorem always_of_step {P : σ → Prop} (hstep : ∀ s op, P s → P (step s op)) {s : σ} (h : P s)
    (ops : List ο) : Always step P s ops := by
  induction ops generalizing s with
  | nil => exact always_nil.mpr h
  | cons op ops ih => exact always_cons.mpr ⟨h, ih (hstep s op h)⟩

theorem run_of_step {P : σ → Prop} (hstep : ∀ s op, P s → P (step s op)) {s : σ} (h : P s)
    (ops : List ο) : P (run step s ops) :=
  always_of_step hstep h ops ops (List.prefix_refl _)

/-- A law that one step keeps exactly when the step is safe holds always exactly when all are. -/
theorem always_iff_eachStep {I P : σ → Prop} {Q : σ → ο → Prop}
    (hinv : ∀ s op, I s → I (step s op))
    (hstep : ∀ s op, I s → P s → (P (step s op) ↔ Q s op)) {s : σ} (hi : I s) (h : P s)
    (ops : List ο) : Always step P s ops ↔ EachStep step Q s ops := by
  induction ops generalizing s with
  | nil => exact iff_of_true (always_nil.mpr h) eachStep_nil
  | cons op ops ih =>
    rw [always_cons, eachStep_cons]
    constructor
    · rintro ⟨_, hrest⟩
      have hnext : P (step s op) := hrest [] (List.nil_prefix ..)
      exact ⟨(hstep s op hi h).mp hnext, (ih (hinv s op hi) hnext).mp hrest⟩
    · rintro ⟨hq, hrest⟩
      have hnext := (hstep s op hi h).mpr hq
      exact ⟨h, (ih (hinv s op hi) hnext).mpr hrest⟩

/-- The same for a law of the states with a law of the steps. -/
theorem always_and_eachStep_iff {P : σ → Prop} {Q R : σ → ο → Prop}
    (hstep : ∀ s op, P s → (P (step s op) ∧ R s op ↔ Q s op)) {s : σ} (h : P s) (ops : List ο) :
    Always step P s ops ∧ EachStep step R s ops ↔ EachStep step Q s ops := by
  induction ops generalizing s with
  | nil => exact iff_of_true ⟨always_nil.mpr h, eachStep_nil⟩ eachStep_nil
  | cons op ops ih =>
    rw [always_cons, eachStep_cons, eachStep_cons]
    constructor
    · rintro ⟨⟨_, hrest⟩, hr, hrs⟩
      have hnext : P (step s op) := hrest [] (List.nil_prefix ..)
      exact ⟨(hstep s op h).mp ⟨hnext, hr⟩, (ih hnext).mp ⟨hrest, hrs⟩⟩
    · rintro ⟨hq, hrest⟩
      obtain ⟨hnext, hr⟩ := (hstep s op h).mpr hq
      obtain ⟨hall, hrs⟩ := (ih hnext).mpr hrest
      exact ⟨⟨h, hall⟩, hr, hrs⟩

/-- Two laws of the steps agree on the runs whose steps are allowed, when the second one keeps what makes
them agree. -/
theorem eachStep_iff_of_inv {I : σ → Prop} {A Q R : σ → ο → Prop}
    (hstep : ∀ s op, I s → A s op → (Q s op ↔ R s op) ∧ (R s op → I (step s op))) {s : σ} (hi : I s)
    {ops : List ο} (ha : EachStep step A s ops) : EachStep step Q s ops ↔ EachStep step R s ops := by
  induction ops generalizing s with
  | nil => exact iff_of_true eachStep_nil eachStep_nil
  | cons op ops ih =>
    obtain ⟨hfirst, hrest⟩ := eachStep_cons.mp ha
    obtain ⟨hiff, hkeep⟩ := hstep s op hi hfirst
    rw [eachStep_cons, eachStep_cons, hiff]
    exact and_congr_right fun hr => ih (hkeep hr) hrest

/-- A law holds of the steps of a run when each of them is good, and a good step keeps what the law needs. -/
theorem eachStep_of_inv {I : σ → Prop} {Q R : σ → ο → Prop}
    (hstep : ∀ s op, I s → Q s op → R s op ∧ I (step s op)) {s : σ} (hi : I s)
    {ops : List ο} (hq : EachStep step Q s ops) : EachStep step R s ops := by
  induction ops generalizing s with
  | nil => exact eachStep_nil
  | cons op ops ih =>
    obtain ⟨hfirst, hrest⟩ := eachStep_cons.mp hq
    obtain ⟨hlaw, hkeep⟩ := hstep s op hi hfirst
    exact eachStep_cons.mpr ⟨hlaw, ih hkeep hrest⟩

end FoldRuns

/-! Runs of a machine whose steps give an answer, and simulations between two such machines. -/

namespace AnsweredRuns

variable {σ τ ο ρ : Type*}

/-- The answers to the operations of a run, and the state after them. -/
def answers (step : σ → ο → ρ × σ) (s : σ) : List ο → List ρ × σ
  | [] => ([], s)
  | op :: ops =>
    let (answer, s) := step s op
    let (rest, s) := answers step s ops
    (answer :: rest, s)

@[simp] theorem answers_nil (step : σ → ο → ρ × σ) (s : σ) : answers step s [] = ([], s) := rfl

@[simp] theorem answers_cons (step : σ → ο → ρ × σ) (s : σ) (op : ο) (ops : List ο) :
    answers step s (op :: ops) =
      ((step s op).1 :: (answers step (step s op).2 ops).1, (answers step (step s op).2 ops).2) := rfl

/-- Every operation of a run is allowed in the state that it finds. -/
def Allowed (allowed : σ → ο → Prop) (step : σ → ο → ρ × σ) (s : σ) : List ο → Prop
  | [] => True
  | op :: ops => allowed s op ∧ Allowed allowed step (step s op).2 ops

/-- A machine that gives the answers of another one step by step gives them over a run. -/
theorem answers_of_simulation {step : σ → ο → ρ × σ} {step' : τ → ο → ρ × τ}
    {allowed : τ → ο → Prop} {R : σ → τ → Prop}
    (hstep : ∀ s t op, R s t → allowed t op →
      (step s op).1 = (step' t op).1 ∧ R (step s op).2 (step' t op).2)
    {s : σ} {t : τ} (h : R s t) {ops : List ο} (hops : Allowed allowed step' t ops) :
    (answers step s ops).1 = (answers step' t ops).1 ∧
      R (answers step s ops).2 (answers step' t ops).2 := by
  induction ops generalizing s t with
  | nil => exact ⟨rfl, h⟩
  | cons op ops ih =>
    obtain ⟨hanswer, hnext⟩ := hstep s t op h hops.1
    obtain ⟨hrest, hend⟩ := ih hnext hops.2
    exact ⟨by rw [answers_cons, answers_cons, hanswer, hrest], hend⟩

end AnsweredRuns
