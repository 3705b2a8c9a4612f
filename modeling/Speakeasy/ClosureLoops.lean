import Mathlib.Data.List.Basic
import Mathlib.Logic.Function.Iterate

/-! A loop that adds an element and what a function leads to from it, until it meets a known one, and
the closed sets that it makes. -/

namespace ClosureLoops

variable {α : Type*} (f : α → α)

/-- What the function leads to, the element itself included. -/
def Leads (x y : α) : Prop := ∃ n, f^[n] x = y

theorem leads_refl (x : α) : Leads f x x := ⟨0, rfl⟩

variable {f}

theorem Leads.next {x y : α} (h : Leads f x y) : Leads f x (f y) := by
  obtain ⟨n, hn⟩ := h
  exact ⟨n + 1, by rw [Function.iterate_succ_apply', hn]⟩

theorem Leads.head {x y : α} (h : Leads f (f x) y) : Leads f x y := by
  obtain ⟨n, hn⟩ := h
  exact ⟨n + 1, by rw [Function.iterate_succ_apply, hn]⟩

theorem leads_cases {x y : α} (h : Leads f x y) : y = x ∨ Leads f (f x) y := by
  obtain ⟨n, hn⟩ := h
  cases n with
  | zero => exact Or.inl hn.symm
  | succ n => exact Or.inr ⟨n, by rw [← hn, Function.iterate_succ_apply]⟩

/-- A set that holds an element and is closed holds what the element leads to. -/
theorem Leads.mem {S : α → Prop} (hclosed : ∀ x, S x → S (f x)) {x y : α} (h : Leads f x y)
    (hx : S x) : S y := by
  obtain ⟨n, hn⟩ := h
  induction n generalizing x with
  | zero => exact hn ▸ hx
  | succ n ih => exact ih (hclosed x hx) hn

variable (f)

/-- What some of the seeds leads to. -/
def Reached (seeds : List α) (y : α) : Prop := ∃ x ∈ seeds, Leads f x y

/-- No element of a set that stays has lost the element that it leads to. -/
def NoOrphans (S : α → Prop) (removed : List α) : Prop := ∀ y, S y → y ∉ removed → f y ∉ removed

variable {f} {seeds removed : List α} {S S' : α → Prop}

theorem Reached.next {y : α} (h : Reached f seeds y) : Reached f seeds (f y) := by
  obtain ⟨x, hx, hy⟩ := h
  exact ⟨x, hx, hy.next⟩

theorem Reached.trans {x y : α} (h : Reached f seeds x) (hy : Leads f x y) : Reached f seeds y :=
  hy.mem (S := Reached f seeds) (fun _ => Reached.next) h

theorem reached_cons {x y : α} : Reached f (x :: seeds) y ↔ Leads f x y ∨ Reached f seeds y := by
  simp [Reached]

theorem NoOrphans.mono (h : NoOrphans f S removed) (hsub : ∀ y, S' y → S y) :
    NoOrphans f S' removed :=
  fun y hy => h y (hsub y hy)

/-- A removal leaves no orphan when nothing that stays leads to the element. -/
theorem NoOrphans.remove_iff (h : NoOrphans f S removed) (x : α) :
    NoOrphans f S (x :: removed) ↔ ∀ y, S y → f y = x → y = x ∨ y ∈ removed := by
  constructor
  · intro hall y hy hfy
    by_contra hstay
    have hout : y ∉ x :: removed := by simpa [not_or] using hstay
    exact hall y hy hout (by simp [hfy])
  · intro hall y hy hout hin
    have hyx : y ≠ x := fun heq => hout (by simp [heq])
    have hyr : y ∉ removed := fun hmem => hout (List.mem_cons_of_mem _ hmem)
    rcases List.mem_cons.mp hin with heq | hmem
    · exact (hall y hy heq).elim hyx hyr
    · exact h y hy hyr hmem

variable [DecidableEq α]

/-- An element that comes back is no orphan when what it leads to is there. -/
theorem NoOrphans.restore (h : NoOrphans f S removed) {x : α}
    (hx : f x ∉ removed.filter (· ≠ x)) : NoOrphans f S (removed.filter (· ≠ x)) := by
  intro y hy hout
  by_cases hyx : y = x
  · rw [hyx]
    exact hx
  · have hyr : y ∉ removed := fun hmem => hout (List.mem_filter.mpr ⟨hmem, by simpa using hyx⟩)
    exact fun hmem => h y hy hyr (List.mem_filter.mp hmem).1

variable (f)

/-- Add an element and what it leads to, until one is known. -/
def addFrom : Nat → List α → α → Option (List α)
  | 0, _, _ => none
  | fuel + 1, known, x => if x ∈ known then some known else addFrom fuel (x :: known) (f x)

def addAll (fuel : Nat) : List α → List α → Option (List α)
  | known, [] => some known
  | known, x :: xs => (addFrom f fuel known x).bind fun known => addAll fuel known xs

variable {f}

theorem addFrom_some {fuel : Nat} {known out : List α} {x : α}
    (hknown : ∀ y ∈ known, f y ∈ known ∨ f y = x) (h : addFrom f fuel known x = some out) :
    (∀ y ∈ out, f y ∈ out) ∧ ∀ y, y ∈ out ↔ y ∈ known ∨ Leads f x y := by
  induction fuel generalizing known x with
  | zero => cases h
  | succ fuel ih =>
    unfold addFrom at h
    split at h
    next hin =>
      rw [← Option.some.inj h]
      have hclosed : ∀ y ∈ known, f y ∈ known :=
        fun y hy => (hknown y hy).elim id fun heq => heq ▸ hin
      refine ⟨hclosed, fun y => ⟨Or.inl, fun hy => hy.elim id fun hlead => ?_⟩⟩
      exact hlead.mem (S := fun y => y ∈ known) hclosed hin
    next hnot =>
      have hknown' : ∀ y ∈ x :: known, f y ∈ x :: known ∨ f y = f x := by
        intro y hy
        rcases List.mem_cons.mp hy with heq | hmem
        · exact Or.inr (by rw [heq])
        · rcases hknown y hmem with hin | heq
          · exact Or.inl (List.mem_cons_of_mem _ hin)
          · exact Or.inl (by simp [heq])
      obtain ⟨hclosed, hmem⟩ := ih hknown' h
      refine ⟨hclosed, fun y => ?_⟩
      rw [hmem, List.mem_cons]
      constructor
      · rintro ((heq | hin) | hlead)
        · exact Or.inr (heq ▸ leads_refl f x)
        · exact Or.inl hin
        · exact Or.inr hlead.head
      · rintro (hin | hlead)
        · exact Or.inl (Or.inr hin)
        · rcases leads_cases hlead with heq | hlead
          · exact Or.inl (Or.inl heq)
          · exact Or.inr hlead

theorem addAll_some {fuel : Nat} {known out xs : List α} (hknown : ∀ y ∈ known, f y ∈ known)
    (h : addAll f fuel known xs = some out) :
    ∀ y, y ∈ out ↔ y ∈ known ∨ Reached f xs y := by
  induction xs generalizing known with
  | nil =>
    cases h
    simp [Reached]
  | cons x xs ih =>
    obtain ⟨next, hnext, hrest⟩ := Option.bind_eq_some_iff.mp h
    obtain ⟨hclosed, hmem⟩ := addFrom_some (fun y hy => Or.inl (hknown y hy)) hnext
    intro y
    rw [ih hclosed hrest, hmem, reached_cons, or_assoc]

theorem addFrom_mono {fuel more : Nat} (hle : fuel ≤ more) {known out : List α} {x : α}
    (h : addFrom f fuel known x = some out) : addFrom f more known x = some out := by
  induction fuel generalizing more known x with
  | zero => cases h
  | succ fuel ih =>
    cases more with
    | zero => omega
    | succ more =>
      unfold addFrom at h ⊢
      split at h
      next hin => rw [if_pos hin, h]
      next hnot =>
        rw [if_neg hnot]
        exact ih (by omega) h

theorem addAll_mono {fuel more : Nat} (hle : fuel ≤ more) {known out xs : List α}
    (h : addAll f fuel known xs = some out) : addAll f more known xs = some out := by
  induction xs generalizing known with
  | nil => exact h
  | cons x xs ih =>
    obtain ⟨next, hnext, hrest⟩ := Option.bind_eq_some_iff.mp h
    unfold addAll
    rw [addFrom_mono hle hnext, Option.bind_some]
    exact ih hrest

/-- A measure that falls on the way to a fixed point bounds the loop. -/
theorem addFrom_isSome {P : α → Prop} {m : α → Nat} (hkeeps : ∀ x, P x → P (f x))
    (hfalls : ∀ x, P x → m (f x) < m x ∨ f x = x) {fuel : Nat} {x : α} (hx : P x)
    (hfuel : m x + 1 < fuel) (known : List α) : (addFrom f fuel known x).isSome := by
  induction fuel generalizing x known with
  | zero => omega
  | succ fuel ih =>
    unfold addFrom
    split
    next => rfl
    next =>
      rcases hfalls x hx with hlt | heq
      · exact ih (hkeeps x hx) (by omega) _
      · cases fuel with
        | zero => omega
        | succ fuel =>
          unfold addFrom
          rw [if_pos (by simp [heq])]
          rfl

theorem addAll_isSome {P : α → Prop} {m : α → Nat} (hkeeps : ∀ x, P x → P (f x))
    (hfalls : ∀ x, P x → m (f x) < m x ∨ f x = x) {fuel : Nat} {xs : List α}
    (hxs : ∀ x ∈ xs, P x ∧ m x + 1 < fuel) (known : List α) : (addAll f fuel known xs).isSome := by
  induction xs generalizing known with
  | nil => rfl
  | cons x xs ih =>
    have hx := hxs x List.mem_cons_self
    obtain ⟨next, hnext⟩ := Option.isSome_iff_exists.mp
      (addFrom_isSome hkeeps hfalls hx.1 hx.2 known)
    unfold addAll
    rw [hnext, Option.bind_some]
    exact ih (fun y hy => hxs y (List.mem_cons_of_mem _ hy)) next

end ClosureLoops
