import Mathlib.Data.List.Basic
import Mathlib.Logic.Function.Basic

/-! A chain of nodes is followed with the keys that it visited and with a limit of hops. -/

/-- What a node of a chain says: the end of the chain, a hop that fails, or a hop. -/
inductive Link (α β : Type*)
  | final (answer : β)
  | broken (answer : β)
  | forward (next : α)

variable {α β κ : Type*}

/-- The node after a number of hops, if the chain has so many. -/
def hops (next : α → Link α β) : Nat → α → Option α
  | 0, x => some x
  | k + 1, x =>
    match next x with
    | .forward y => hops next k y
    | _ => none

theorem hops_succ (next : α → Link α β) (k : Nat) (x : α) : hops next (k + 1) x =
    match next x with
    | .forward y => hops next k y
    | _ => none := rfl

theorem hops_add (next : α → Link α β) (j k : Nat) (x : α) :
    hops next (j + k) x = (hops next j x).bind (hops next k) := by
  induction j generalizing x with
  | zero =>
    rw [Nat.zero_add]
    rfl
  | succ j ih =>
    rw [Nat.succ_add, hops_succ, hops_succ]
    cases next x with
    | final answer => rfl
    | broken answer => rfl
    | forward y => exact ih y

/-- A chain that comes back to its start has a node after every number of hops. -/
theorem hops_cycle {next : α → Link α β} {j : Nat} {x : α} (hj : 0 < j) (hcycle : hops next j x = some x) (k : Nat) :
    (hops next k x).isSome = true := by
  have hround : ∀ n, hops next (n * j) x = some x := by
    intro n
    induction n with
    | zero =>
      rw [Nat.zero_mul]
      rfl
    | succ n ih => rw [Nat.succ_mul, hops_add, ih, Option.bind_some, hcycle]
  have hle : k ≤ k * j := Nat.le_mul_of_pos_right k hj
  have hsplit := hops_add next k (k * j - k) x
  rw [Nat.add_sub_cancel' hle, hround] at hsplit
  cases hk : hops next k x with
  | some y => rfl
  | none =>
    rw [hk] at hsplit
    cases hsplit

/-- A chain that comes to a node twice has a node after every number of hops. -/
theorem hops_twice {next : α → Link α β} {i j : Nat} {x y : α} (hij : i < j) (hi : hops next i x = some y)
    (hj : hops next j x = some y) (k : Nat) : (hops next k x).isSome = true := by
  have hcycle : hops next (j - i) y = some y := by
    have hsplit := hops_add next i (j - i) x
    rw [Nat.add_sub_cancel' (Nat.le_of_lt hij), hi, hj, Option.bind_some] at hsplit
    exact hsplit.symm
  by_cases hle : k ≤ i
  · have hsplit := hops_add next k (i - k) x
    rw [Nat.add_sub_cancel' hle, hi] at hsplit
    cases hk : hops next k x with
    | some z => rfl
    | none =>
      rw [hk] at hsplit
      cases hsplit
  · have hrest := hops_cycle (Nat.sub_pos_of_lt hij) hcycle (k - i)
    have hsplit := hops_add next i (k - i) x
    rw [Nat.add_sub_cancel' (Nat.le_of_not_le hle), hi, Option.bind_some] at hsplit
    rwa [hsplit]

section

variable {next : α → Link α β} {key : α → κ} {seen : List κ} {x : α}

/-- The visited keys are those of nodes before this one. -/
def Visited (next : α → Link α β) (key : α → κ) (seen : List κ) (x : α) : Prop :=
  ∀ k ∈ seen, ∃ z j, key z = k ∧ 0 < j ∧ hops next j z = some x

theorem Visited.forward (h : Visited next key seen x) {y : α} (hy : next x = .forward y) :
    Visited next key (key x :: seen) y := by
  have hone : hops next 1 x = some y := by
    rw [hops_succ, hy]
    rfl
  intro k hk
  cases List.mem_cons.mp hk with
  | inl heq => exact ⟨x, 1, heq.symm, Nat.one_pos, hone⟩
  | inr hmem =>
    obtain ⟨z, j, hz, hj, hhops⟩ := h k hmem
    exact ⟨z, j + 1, hz, Nat.succ_pos j, by rw [hops_add, hhops, Option.bind_some, hone]⟩

/-- A chain that ends does not come to a visited key. -/
theorem Visited.notMem (h : Visited next key seen x) (hkey : Function.Injective key) {k : Nat}
    (hend : hops next k x = none) : key x ∉ seen := by
  intro hmem
  obtain ⟨z, j, hz, hj, hhops⟩ := h (key x) hmem
  rw [hkey hz] at hhops
  have hsome := hops_cycle hj hhops k
  rw [hend] at hsome
  cases hsome

variable [DecidableEq κ]

/-- The answer at the end of the chain. A hop from a visited key, or one too many, has no other answer than `stuck`. -/
def followLinks (next : α → Link α β) (key : α → κ) (limit : Nat) (stuck : β) (seen : List κ) (x : α) : β :=
  match next x with
  | .final answer => answer
  | .broken answer => if key x ∈ seen ∨ limit ≤ seen.length then stuck else answer
  | .forward y =>
    if key x ∈ seen ∨ limit ≤ seen.length then stuck
    else followLinks next key limit stuck (key x :: seen) y
termination_by limit - seen.length
decreasing_by
  rw [List.length_cons]
  omega

variable {limit : Nat} {stuck : β}

/-- A chain that ends after few hops is followed to its end. -/
theorem followLinks_end (hkey : Function.Injective key) (hseen : Visited next key seen x) {k : Nat} {y : α}
    (hhops : hops next k x = some y) {answer : β}
    (hend : next y = .final answer ∧ k + seen.length ≤ limit ∨ next y = .broken answer ∧ k + seen.length < limit) :
    followLinks next key limit stuck seen x = answer := by
  induction k generalizing seen x with
  | zero =>
    have hxy : x = y := Option.some.inj hhops
    rw [Nat.zero_add] at hend
    unfold followLinks
    cases hend with
    | inl hfinal => rw [hxy, hfinal.1]
    | inr hbroken =>
      have hone : hops next 1 x = none := by
        rw [hops_succ, hxy, hbroken.1]
      have hno : ¬(key x ∈ seen ∨ limit ≤ seen.length) :=
        fun h => h.elim (hseen.notMem hkey hone) (Nat.not_le.mpr hbroken.2)
      rw [hxy] at hno ⊢
      rw [hbroken.1]
      exact if_neg hno
  | succ k ih =>
    have hnone : hops next (k + 1 + 1) x = none := by
      rw [hops_add, hhops, Option.bind_some]
      rw [hops_succ]
      cases hend with
      | inl hfinal => rw [hfinal.1]
      | inr hbroken => rw [hbroken.1]
    have hno : ¬(key x ∈ seen ∨ limit ≤ seen.length) := by
      intro h
      cases h with
      | inl hmem => exact hseen.notMem hkey hnone hmem
      | inr hle => omega
    rw [hops_succ] at hhops
    unfold followLinks
    cases hnext : next x with
    | final b =>
      rw [hnext] at hhops
      cases hhops
    | broken b =>
      rw [hnext] at hhops
      cases hhops
    | forward z =>
      rw [hnext] at hhops
      refine (if_neg hno).trans (ih (hseen.forward hnext) hhops (hend.imp ?_ ?_))
      · exact fun hfinal => ⟨hfinal.1, by rw [List.length_cons]; omega⟩
      · exact fun hbroken => ⟨hbroken.1, by rw [List.length_cons]; omega⟩

/-- A chain with too many hops is not followed to its end. -/
theorem followLinks_visited {k : Nat} (hlimit : seen.length ≤ limit) (hlong : limit < k + seen.length)
    (hhops : (hops next k x).isSome = true) : followLinks next key limit stuck seen x = stuck := by
  induction k generalizing seen x with
  | zero => omega
  | succ k ih =>
    rw [hops_succ] at hhops
    unfold followLinks
    cases hnext : next x with
    | final b =>
      rw [hnext] at hhops
      cases hhops
    | broken b =>
      rw [hnext] at hhops
      cases hhops
    | forward z =>
      rw [hnext] at hhops
      by_cases hstop : key x ∈ seen ∨ limit ≤ seen.length
      · exact if_pos hstop
      · have hlt := Nat.not_le.mp (not_or.mp hstop).2
        refine (if_neg hstop).trans (ih ?_ ?_ hhops)
        · rw [List.length_cons]
          omega
        · rw [List.length_cons]
          omega

/-- A hop that fails as a long chain does has that answer after any number of hops. -/
theorem followLinks_stuck {k : Nat} {y : α} (hhops : hops next k x = some y) (hbroken : next y = .broken stuck) :
    followLinks next key limit stuck seen x = stuck := by
  induction k generalizing seen x with
  | zero =>
    have hxy : x = y := Option.some.inj hhops
    unfold followLinks
    rw [hxy, hbroken]
    exact ite_self stuck
  | succ k ih =>
    rw [hops_succ] at hhops
    unfold followLinks
    cases hnext : next x with
    | final b =>
      rw [hnext] at hhops
      cases hhops
    | broken b =>
      rw [hnext] at hhops
      cases hhops
    | forward z =>
      rw [hnext] at hhops
      by_cases hstop : key x ∈ seen ∨ limit ≤ seen.length
      · exact if_pos hstop
      · exact (if_neg hstop).trans (ih hhops)

/-! From the start of the chain, nothing is visited. -/

theorem followLinks_final (hkey : Function.Injective key) {k : Nat} {y : α} (hhops : hops next k x = some y) {answer : β}
    (hfinal : next y = .final answer) (hle : k ≤ limit) : followLinks next key limit stuck [] x = answer := by
  have hvisited : Visited next key [] x := fun k hk => absurd hk List.not_mem_nil
  exact followLinks_end hkey hvisited hhops (Or.inl ⟨hfinal, by rw [List.length_nil]; exact hle⟩)

theorem followLinks_long {k : Nat} (hlong : limit < k) (hhops : (hops next k x).isSome = true) :
    followLinks next key limit stuck [] x = stuck := by
  have hlength : ([] : List κ).length = 0 := List.length_nil
  exact followLinks_visited (by omega) (by omega) hhops

end
