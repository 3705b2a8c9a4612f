import Speakeasy.PageProtection
import Mathlib.Order.Bounds.Basic

namespace Speakeasy

/-- The loop of `get_first_unmapped` for a number of turns, and nothing when it needs more. -/
def firstUnmappedTurns (regions : List Region) (address limit : Nat) : Nat → Nat → Option Nat
  | 0, _ => none
  | turns + 1, current =>
    if current < limit then
      match regions.find? (fun r => decide (r.Covers current)) with
      | none => some current
      | some r => firstUnmappedTurns regions address limit turns (r.last + 1)
    else some address

/-- The addresses of a range that no region holds. -/
def unmappedIn (regions : List Region) (lo hi : Nat) : Set Nat :=
  {a | lo ≤ a ∧ a < hi ∧ ∀ r ∈ regions, ¬r.Covers a}

variable {regions : List Region} {address limit current : Nat}

/-- Behind the region that holds the current address, nothing unmapped was passed. -/
theorem unmappedIn_pass {r : Region} (hr : r ∈ regions) (hc : r.Covers current) (hi : Nat) :
    unmappedIn regions current hi = unmappedIn regions (r.last + 1) hi := by
  ext a
  constructor
  · rintro ⟨hlo, hhi, hfree⟩
    have hout := hfree r hr
    simp only [Region.Covers] at hc hout
    exact ⟨by omega, hhi, hfree⟩
  · rintro ⟨hlo, hhi, hfree⟩
    have hlast := hc.2
    exact ⟨by omega, hhi, hfree⟩

/-- From each address the loop ends before it has more turns than regions that it has not passed, and it returns the
least address that is left, or the start of the range. -/
theorem firstUnmappedTurns_spec {turns : Nat} (hturns : (regionsAbove regions current).length < turns) :
    ∃ v, firstUnmappedTurns regions address limit turns current = some v ∧
      firstUnmappedLoop regions address limit turns current = v ∧
      (IsLeast (unmappedIn regions current limit) v ∨ v = address ∧ unmappedIn regions current limit = ∅) := by
  induction turns generalizing current with
  | zero => omega
  | succ turns ih =>
    rw [firstUnmappedTurns, firstUnmappedLoop]
    by_cases hlt : current < limit
    · rw [if_pos hlt, if_pos hlt]
      cases hfind : regions.find? (fun r => decide (r.Covers current)) with
      | none =>
        have hfree : ∀ r ∈ regions, ¬r.Covers current := by simpa using hfind
        refine ⟨current, rfl, rfl, Or.inl ⟨⟨Nat.le_refl _, hlt, hfree⟩, ?_⟩⟩
        rintro a ⟨hlo, -, -⟩
        exact hlo
      | some r =>
        have hr := List.mem_of_find?_eq_some hfind
        have hc : r.Covers current := by simpa using List.find?_some hfind
        have hless := regionsAbove_lt hr hc
        obtain ⟨v, hv, hloop, hleast⟩ := @ih (r.last + 1) (by omega)
        rw [← unmappedIn_pass hr hc] at hleast
        exact ⟨v, hv, hloop, hleast⟩
    · rw [if_neg hlt, if_neg hlt]
      refine ⟨address, rfl, rfl, Or.inr ⟨rfl, ?_⟩⟩
      apply Set.eq_empty_of_forall_notMem
      rintro a ⟨hlo, hhi, -⟩
      omega

/-- `get_first_unmapped` ends within one turn for each region and one more. It returns the least address of the range
that no region holds, and the start of the range where there is none. -/
theorem getFirstUnmapped_law (regions : List Region) (address size : Nat) :
    (∀ turns, regions.length < turns →
      firstUnmappedTurns regions address (address + size) turns address =
        some (getFirstUnmapped regions address size)) ∧
      (IsLeast (unmappedIn regions address (address + size)) (getFirstUnmapped regions address size) ∨
        getFirstUnmapped regions address size = address ∧
          ∀ a, address ≤ a → a < address + size → ∃ r ∈ regions, r.Covers a) := by
  have habove : (regionsAbove regions address).length ≤ regions.length := List.length_filter_le _ _
  obtain ⟨v, hv, hloop, hleast⟩ := @firstUnmappedTurns_spec regions address (address + size) address
    (regions.length + 1) (by omega)
  have hresult : getFirstUnmapped regions address size = v := hloop
  refine ⟨?_, ?_⟩
  · intro turns hturns
    obtain ⟨w, hw, hloop', hleast'⟩ := @firstUnmappedTurns_spec regions address (address + size) address turns (by omega)
    rw [hw, hresult]
    congr 1
    rcases hleast with hleast | ⟨hv', hempty⟩
    · rcases hleast' with hleast' | ⟨-, hempty⟩
      · exact hleast'.unique hleast
      · rw [hempty] at hleast
        exact absurd hleast.1 (Set.notMem_empty _)
    · rcases hleast' with hleast' | ⟨hw', -⟩
      · rw [hempty] at hleast'
        exact absurd hleast'.1 (Set.notMem_empty _)
      · rw [hw', hv']
  · rw [hresult]
    apply hleast.imp_right
    rintro ⟨hstart, hempty⟩
    refine ⟨hstart, ?_⟩
    intro a hlo hhi
    by_contra hno
    have hmem : a ∈ unmappedIn regions address (address + size) :=
      ⟨hlo, hhi, fun r hr hc => hno ⟨r, hr, hc⟩⟩
    rw [hempty] at hmem
    exact Set.notMem_empty _ hmem

example : getFirstUnmapped [⟨0x2000, 0x2FFF, 3⟩, ⟨0x1000, 0x1FFF, 3⟩] 0x1800 0x2000 = 0x3000 := by decide

end Speakeasy
