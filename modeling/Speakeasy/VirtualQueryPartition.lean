import Speakeasy.VirtualQueryAnswers

namespace Speakeasy

open PageEngine MemoryManager

/-- Nonempty ranges, one after the other, from `lo` to `hi`. -/
def Tiles : Nat → List MemoryBasicInformation → Nat → Prop
  | lo, [], hi => lo = hi
  | lo, m :: ms, hi => m.baseAddress = lo ∧ 0 < m.regionSize ∧ Tiles (lo + m.regionSize) ms hi

theorem Tiles.le {lo hi : Nat} {l : List MemoryBasicInformation} (h : Tiles lo l hi) : lo ≤ hi := by
  induction l generalizing lo with
  | nil => exact Nat.le_of_eq h
  | cons m ms ih =>
    have := ih h.2.2
    omega

section

variable {ε : Type} [PageEngine ε]

def SameRange (m n : MemoryBasicInformation) : Prop :=
  m.baseAddress = n.baseAddress ∧ m.regionSize = n.regionSize

variable {env : WinEnv} {w : WinMemory ε}

variable [LawfulPageEngine ε]

end

def plainWin : WinEnv := ⟨plainEnv, 4, 0x50000⟩

end Speakeasy
