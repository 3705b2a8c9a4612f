import Mathlib.Data.Nat.Bitwise
import Speakeasy.Generators

namespace Speakeasy

def exceptionUnwinding : Nat := 0x02
def exceptionTargetUnwind : Nat := 0x20

/-- `EXCEPTION_UNWINDING | EXCEPTION_EXIT_UNWIND` -/
def unwindingFlags : Nat := 0x06

/-- `MAX_FRAMES` -/
def maxFrames : Nat := 4096

/-- A guest return value as a LONG. -/
def asLong (value : Nat) : Int :=
  let low : Nat := value % 2 ^ 32
  if low < 2 ^ 31 then low else (low : Int) - 2 ^ 32

/-- `flags & UNWINDING` -/
def isUnwinding (flags : Nat) : Bool := flags &&& unwindingFlags ≠ 0

/-- The flags of a record that unwinds to a frame, or out of all frames. -/
def unwindFlags (flags targetFrame : Nat) : Nat :=
  flags ||| if targetFrame ≠ 0 then exceptionUnwinding else unwindingFlags

theorem isUnwinding_of_bit {flags : Nat} (h : flags.testBit 1 = true) : isUnwinding flags = true := by
  have hbit : (flags &&& unwindingFlags).testBit 1 = true := by
    rw [Nat.testBit_land, h]
    rfl
  apply decide_eq_true
  intro hzero
  rw [hzero] at hbit
  simp at hbit

theorem unwindFlags_bit (flags targetFrame : Nat) : (unwindFlags flags targetFrame).testBit 1 = true := by
  unfold unwindFlags
  split
  next =>
    rw [Nat.testBit_lor]
    exact Bool.or_eq_true_iff.mpr (Or.inr rfl)
  next =>
    rw [Nat.testBit_lor]
    exact Bool.or_eq_true_iff.mpr (Or.inr rfl)

/-- What a language handler does in the end. -/
inductive Disposition
  | continueExecution
  | continueSearch
deriving DecidableEq

end Speakeasy
