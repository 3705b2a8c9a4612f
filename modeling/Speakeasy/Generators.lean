import Mathlib.Data.List.Basic

namespace Speakeasy

/-- A generator returns, or yields a call and goes on with its answer. -/
inductive Generator (Call Answer Out : Type)
  | ret (out : Out)
  | yield (call : Call) (next : Answer → Generator Call Answer Out)

namespace Generator

variable {Call Answer Out Out' : Type}

/-- `yield from`, and then `f`. -/
def bind (f : Out → Generator Call Answer Out') : Generator Call Answer Out → Generator Call Answer Out'
  | .ret out => f out
  | .yield call next => .yield call fun answer => (next answer).bind f

instance : Monad (Generator Call Answer) where
  pure := .ret
  bind g f := g.bind f

@[simp] theorem ret_bind (out : Out) (f : Out → Generator Call Answer Out') :
    (Generator.ret out >>= f) = f out :=
  rfl

@[simp] theorem yield_bind (call : Call) (next : Answer → Generator Call Answer Out)
    (f : Out → Generator Call Answer Out') :
    (Generator.yield call next >>= f) = .yield call fun answer => next answer >>= f :=
  rfl

/-- The calls that answers lead to, and the result when the answers are enough, with the answers that are
left. The last call of a generator without a result has no answer. -/
def run : Generator Call Answer Out → List Answer → List Call × Option (Out × List Answer)
  | .ret out, answers => ([], some (out, answers))
  | .yield call _, [] => ([call], none)
  | .yield call next, answer :: answers =>
    let rest := (next answer).run answers
    (call :: rest.1, rest.2)

@[simp] theorem run_ret (out : Out) (answers : List Answer) :
    (Generator.ret out : Generator Call Answer Out).run answers = ([], some (out, answers)) := by
  cases answers with
  | nil => rfl
  | cons answer answers => rfl

@[simp] theorem run_yield_nil (call : Call) (next : Answer → Generator Call Answer Out) :
    (Generator.yield call next).run [] = ([call], none) :=
  rfl

@[simp] theorem run_yield_cons (call : Call) (next : Answer → Generator Call Answer Out) (answer : Answer)
    (answers : List Answer) :
    (Generator.yield call next).run (answer :: answers) =
      (call :: ((next answer).run answers).1, ((next answer).run answers).2) :=
  rfl

theorem run_bind (g : Generator Call Answer Out) (f : Out → Generator Call Answer Out') (answers : List Answer) :
    (g >>= f).run answers =
      match g.run answers with
      | (calls, none) => (calls, none)
      | (calls, some (out, rest)) => (calls ++ ((f out).run rest).1, ((f out).run rest).2) := by
  induction g generalizing answers with
  | ret out => simp
  | yield call next ih =>
    cases answers with
    | nil => simp
    | cons answer answers =>
      rw [yield_bind, run_yield_cons, run_yield_cons, ih answer answers]
      rcases (next answer).run answers with ⟨calls, _ | ⟨out, rest⟩⟩
      · rfl
      · rfl

/-- Every call of a generator that returns takes an answer. -/
theorem run_left (g : Generator Call Answer Out) (answers : List Answer) {out : Out} {rest : List Answer}
    (h : (g.run answers).2 = some (out, rest)) : answers.length = (g.run answers).1.length + rest.length := by
  induction g generalizing answers with
  | ret out' =>
    rw [run_ret] at h
    cases h
    simp
  | yield call next ih =>
    cases answers with
    | nil => cases h
    | cons answer answers =>
      have hrest := ih answer answers h
      rw [run_yield_cons, List.length_cons, List.length_cons]
      omega

/-- A generator without a result has a call that is not answered. -/
theorem run_calls_ne_nil {g : Generator Call Answer Out} {answers : List Answer} (h : (g.run answers).2 = none) :
    (g.run answers).1 ≠ [] := by
  cases g with
  | ret out => simp at h
  | yield call next =>
    cases answers with
    | nil => simp
    | cons answer answers => simp

section

variable {State : Type}

/-- The run in which every answer leaves the state as it was at the call. -/
def runKept : Generator (Call × State) (Answer × State) Out → List Answer → List Call × Option (Out × List Answer)
  | .ret out, answers => ([], some (out, answers))
  | .yield call _, [] => ([call.1], none)
  | .yield call next, answer :: answers =>
    let rest := (next (answer, call.2)).runKept answers
    (call.1 :: rest.1, rest.2)

@[simp] theorem runKept_ret (out : Out) (answers : List Answer) :
    (Generator.ret out : Generator (Call × State) (Answer × State) Out).runKept answers =
      ([], some (out, answers)) := by
  cases answers with
  | nil => rfl
  | cons answer answers => rfl

@[simp] theorem runKept_yield_cons (call : Call) (state : State)
    (next : Answer × State → Generator (Call × State) (Answer × State) Out) (answer : Answer)
    (answers : List Answer) :
    (Generator.yield (call, state) next).runKept (answer :: answers) =
      (call :: ((next (answer, state)).runKept answers).1, ((next (answer, state)).runKept answers).2) :=
  rfl

theorem runKept_bind {g : Generator (Call × State) (Answer × State) Out}
    (f : Out → Generator (Call × State) (Answer × State) Out') {answers rest : List Answer} {calls : List Call}
    {out : Out} (h : g.runKept answers = (calls, some (out, rest))) :
    (g >>= f).runKept answers = (calls ++ ((f out).runKept rest).1, ((f out).runKept rest).2) := by
  induction g generalizing answers calls with
  | ret out' =>
    rw [runKept_ret] at h
    cases h
    rw [ret_bind, List.nil_append]
  | yield call next ih =>
    obtain ⟨call, state⟩ := call
    cases answers with
    | nil => cases h
    | cons answer answers =>
      rw [runKept_yield_cons] at h
      obtain ⟨hcalls, hout⟩ := Prod.mk.inj h
      have hnext : (next (answer, state)).runKept answers =
          (((next (answer, state)).runKept answers).1, some (out, rest)) := by
        rw [← hout]
      rw [yield_bind, runKept_yield_cons, ih (answer, state) hnext, ← hcalls, List.cons_append]

end

/-- A generator returns when the guest answers `n` calls. -/
def ReturnsWithin (g : Generator Call Answer Out) (n : Nat) : Prop :=
  ∀ answers, (g.run answers).1.length ≤ n ∧ (n ≤ answers.length → (g.run answers).2 ≠ none)

theorem ReturnsWithin.mono {g : Generator Call Answer Out} {n k : Nat} (h : g.ReturnsWithin n) (hk : n ≤ k) :
    g.ReturnsWithin k := by
  intro answers
  obtain ⟨hcalls, hreturns⟩ := h answers
  exact ⟨by omega, fun hlen => hreturns (by omega)⟩

theorem returnsWithin_ret (out : Out) (n : Nat) : (Generator.ret out : Generator Call Answer Out).ReturnsWithin n := by
  intro answers
  simp

theorem returnsWithin_yield {call : Call} {next : Answer → Generator Call Answer Out} {n : Nat}
    (h : ∀ answer, (next answer).ReturnsWithin n) : (Generator.yield call next).ReturnsWithin (n + 1) := by
  intro answers
  cases answers with
  | nil => simp
  | cons answer answers =>
    obtain ⟨hcalls, hreturns⟩ := h answer answers
    rw [run_yield_cons, List.length_cons, List.length_cons]
    exact ⟨by omega, fun hlen => hreturns (by omega)⟩

theorem ReturnsWithin.bind {g : Generator Call Answer Out} {f : Out → Generator Call Answer Out'} {n k : Nat}
    (hg : g.ReturnsWithin n) (hf : ∀ out, (f out).ReturnsWithin k) : (g >>= f).ReturnsWithin (n + k) := by
  intro answers
  obtain ⟨hcalls, hreturns⟩ := hg answers
  rw [run_bind]
  rcases hrun : g.run answers with ⟨calls, _ | ⟨out, rest⟩⟩
  · rw [hrun] at hcalls hreturns
    exact ⟨by simp only at hcalls ⊢; omega, fun hlen => absurd rfl (hreturns (by omega))⟩
  · have hlen := run_left g answers (congrArg Prod.snd hrun)
    rw [hrun] at hcalls hlen
    obtain ⟨hfcalls, hfreturns⟩ := hf out rest
    simp only at hcalls hlen ⊢
    rw [List.length_append]
    exact ⟨by omega, fun hall => hfreturns (by omega)⟩

end Generator

end Speakeasy
