import Speakeasy.CrtDescriptors
import Speakeasy.MergeRuns

namespace Speakeasy

section

/-- The guest in a sort: its memory, and what else its code depends on. -/
structure SortGuest (τ : Type) where
  memory : ByteMemory
  rest : τ

/-- A guest call of a comparator with the addresses of two elements. -/
abbrev GuestCompare (τ : Type) := SortGuest τ → Nat → Nat → Nat × SortGuest τ

variable {τ : Type}

/-- The guest after some calls of the comparator. -/
def guestAfter (compare : GuestCompare τ) (g : SortGuest τ) (calls : List (Nat × Nat)) : SortGuest τ :=
  calls.foldl (fun g call => (compare g call.1 call.2).2) g

/-- The bytes of the array are the same. -/
def SameArray (base number width : Nat) (m m' : ByteMemory) : Prop :=
  ∀ x, base ≤ x → x < base + number * width → m' x = m x

end

section

section

variable {width : Nat}

end

variable {τ : Type} {compare : GuestCompare τ} {g : SortGuest τ} {base number width : Nat} {m m' : ByteMemory}

theorem SameArray.refl (m : ByteMemory) : SameArray base number width m m := fun _ _ _ => rfl

end

end Speakeasy
