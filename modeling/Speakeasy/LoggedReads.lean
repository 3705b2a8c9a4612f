import Mathlib.Data.List.Basic

/-! Computations that read a store and may fail, with the log of the keys that they read. -/

/-- A computation gives the keys that it reads, in order, and its result. -/
@[ext] structure LoggedReads (κ ν ε α : Type) where
  run : (κ → Except ε ν) → List κ × Except ε α

namespace LoggedReads

variable {κ ν ε α β : Type}

def pure (a : α) : LoggedReads κ ν ε α := ⟨fun _ => ([], .ok a)⟩

def bind (c : LoggedReads κ ν ε α) (f : α → LoggedReads κ ν ε β) : LoggedReads κ ν ε β :=
  ⟨fun store => match c.run store with
    | (log, .ok a) => (log ++ ((f a).run store).1, ((f a).run store).2)
    | (log, .error e) => (log, .error e)⟩

instance : Monad (LoggedReads κ ν ε) where
  pure := LoggedReads.pure
  bind := LoggedReads.bind

def ask (k : κ) : LoggedReads κ ν ε ν := ⟨fun store => ([k], store k)⟩

def fail (e : ε) : LoggedReads κ ν ε α := ⟨fun _ => ([], .error e)⟩

variable {c : LoggedReads κ ν ε α} {f : α → LoggedReads κ ν ε β} {store : κ → Except ε ν} {log : List κ}

@[simp] theorem pure_run (a : α) : (Pure.pure a : LoggedReads κ ν ε α).run store = ([], .ok a) := rfl

@[simp] theorem ask_run (k : κ) : (ask k : LoggedReads κ ν ε ν).run store = ([k], store k) := rfl

@[simp] theorem fail_run (e : ε) : (fail e : LoggedReads κ ν ε α).run store = ([], .error e) := rfl

theorem bind_run_ok {a : α} (h : c.run store = (log, .ok a)) :
    (c >>= f).run store = (log ++ ((f a).run store).1, ((f a).run store).2) := by
  show (LoggedReads.bind c f).run store = _
  unfold LoggedReads.bind
  simp only [h]

theorem bind_run_error {e : ε} (h : c.run store = (log, .error e)) :
    (c >>= f).run store = (log, .error e) := by
  show (LoggedReads.bind c f).run store = _
  unfold LoggedReads.bind
  simp only [h]

/-- A sequence has a value exactly when both parts have one. -/
theorem bind_eq_ok {b : β} : ((c >>= f).run store).2 = .ok b ↔
    ∃ a, (c.run store).2 = .ok a ∧ ((f a).run store).2 = .ok b := by
  rcases hrun : c.run store with ⟨log, e | a⟩
  · rw [bind_run_error hrun]
    simp
  · rw [bind_run_ok hrun]
    simp

/-- A sequence fails where one of its parts fails. -/
theorem bind_eq_error {e : ε} : ((c >>= f).run store).2 = .error e ↔
    (c.run store).2 = .error e ∨ ∃ a, (c.run store).2 = .ok a ∧ ((f a).run store).2 = .error e := by
  rcases hrun : c.run store with ⟨log, e' | a⟩
  · rw [bind_run_error hrun]
    simp
  · rw [bind_run_ok hrun]
    simp

theorem bind_result_ok {a : α} (h : (c.run store).2 = .ok a) :
    ((c >>= f).run store).2 = ((f a).run store).2 := by
  have hrun : c.run store = ((c.run store).1, .ok a) := Prod.ext rfl h
  rw [bind_run_ok hrun]

theorem bind_result_congr {c' : LoggedReads κ ν ε α} {f' : α → LoggedReads κ ν ε β}
    (hc : (c.run store).2 = (c'.run store).2)
    (hf : ∀ a, ((f a).run store).2 = ((f' a).run store).2) :
    ((c >>= f).run store).2 = ((c' >>= f').run store).2 := by
  rcases hrun : c.run store with ⟨log, e | a⟩
  · have hrun' : c'.run store = ((c'.run store).1, .error e) := Prod.ext rfl (by rw [← hc, hrun])
    rw [bind_run_error hrun, bind_run_error hrun']
  · have hrun' : c'.run store = ((c'.run store).1, .ok a) := Prod.ext rfl (by rw [← hc, hrun])
    rw [bind_run_ok hrun, bind_run_ok hrun']
    exact hf a

theorem pure_bind (a : α) (f : α → LoggedReads κ ν ε β) : (Pure.pure a >>= f) = f a := by
  ext1
  funext store
  exact bind_run_ok (pure_run a)

theorem bind_assoc {γ : Type} (c : LoggedReads κ ν ε α) (f : α → LoggedReads κ ν ε β)
    (g : β → LoggedReads κ ν ε γ) : (c >>= f) >>= g = c >>= fun a => f a >>= g := by
  ext1
  funext store
  rcases hrun : c.run store with ⟨log, e | a⟩
  · rw [bind_run_error hrun, bind_run_error (bind_run_error hrun)]
  · rw [bind_run_ok hrun]
    have hbind := bind_run_ok (f := f) hrun
    rcases hf : (f a).run store with ⟨log', e | b⟩
    · rw [hf] at hbind
      rw [bind_run_error hbind, bind_run_error hf]
    · rw [hf] at hbind
      rw [bind_run_ok hbind, bind_run_ok hf, List.append_assoc]

theorem mem_bind_log {k : κ} : k ∈ ((c >>= f).run store).1 ↔
    k ∈ (c.run store).1 ∨ ∃ a, (c.run store).2 = .ok a ∧ k ∈ ((f a).run store).1 := by
  rcases hrun : c.run store with ⟨log, e | a⟩
  · rw [bind_run_error hrun]
    simp
  · rw [bind_run_ok hrun]
    simp

/-- A computation fails only where a read of its log fails, or for a reason of its own. -/
def Explained (store : κ → Except ε ν) (own : ε → Prop) (c : LoggedReads κ ν ε α) : Prop :=
  ∀ e, (c.run store).2 = .error e → own e ∨ ∃ k ∈ (c.run store).1, store k = .error e

variable {own : ε → Prop}

theorem explained_pure (a : α) : Explained store own (Pure.pure a : LoggedReads κ ν ε α) :=
  fun _ h => nomatch h

theorem explained_ask (k : κ) : Explained store own (ask k : LoggedReads κ ν ε ν) :=
  fun _ h => Or.inr ⟨k, List.mem_cons_self, h⟩

theorem explained_fail {e : ε} (h : own e) : Explained store own (fail e : LoggedReads κ ν ε α) :=
  fun _ h' => Or.inl (Except.error.inj h' ▸ h)

theorem Explained.bind (hc : Explained store own c) (hf : ∀ a, Explained store own (f a)) :
    Explained store own (c >>= f) := by
  intro e h
  rcases bind_eq_error.mp h with h | ⟨a, ha, h⟩
  · rcases hc e h with hown | ⟨k, hk, hfail⟩
    · exact Or.inl hown
    · exact Or.inr ⟨k, mem_bind_log.mpr (Or.inl hk), hfail⟩
  · rcases hf a e h with hown | ⟨k, hk, hfail⟩
    · exact Or.inl hown
    · exact Or.inr ⟨k, mem_bind_log.mpr (Or.inr ⟨a, ha, hk⟩), hfail⟩

/-- The number of reads of a computation. -/
def readCount (store : κ → Except ε ν) (c : LoggedReads κ ν ε α) : Nat := (c.run store).1.length

@[simp] theorem readCount_pure (a : α) :
    readCount store (Pure.pure a : LoggedReads κ ν ε α) = 0 := rfl

@[simp] theorem readCount_ask (k : κ) : readCount store (ask k : LoggedReads κ ν ε ν) = 1 := rfl

@[simp] theorem readCount_fail (e : ε) :
    readCount store (fail e : LoggedReads κ ν ε α) = 0 := rfl

theorem readCount_bind_le (bound next : Nat) (hc : readCount store c ≤ bound)
    (hf : ∀ a, (c.run store).2 = .ok a → readCount store (f a) ≤ next) :
    readCount store (c >>= f) ≤ bound + next := by
  unfold readCount at *
  rcases hrun : c.run store with ⟨log, e | a⟩
  · rw [bind_run_error hrun]
    rw [hrun] at hc
    exact Nat.le_add_right_of_le hc
  · rw [bind_run_ok hrun, List.length_append]
    rw [hrun] at hc
    exact Nat.add_le_add hc (hf a (by rw [hrun]))

end LoggedReads
