import Speakeasy.GuestStrings
import Mathlib.Data.List.TakeWhile

namespace Speakeasy

/-- `hay.rfind(c)` of one character. -/
def rfindChar (c : Nat) (hay : List Nat) : Option Nat := (hay.reverse.idxOf? c).map (hay.length - 1 - ·)

/-- `(s1 > s2) - (s1 < s2)`. -/
def textOrder (s1 s2 : List Nat) : Int := (if s2 < s1 then 1 else 0) - (if s1 < s2 then 1 else 0)

/-- The bytes of `encode("utf-16-be", "surrogatepass")`. -/
def bigEndianUnits (cs : List Nat) : List Nat := (encodeUnits cs).flatMap fun u => [u / 0x100, u % 0x100]

/-- `get_string_order(s1, s2, Fold.NONE)`. -/
def getStringOrder (s1 s2 : List Nat) : Int := textOrder (bigEndianUnits s1) (bigEndianUnits s2)

namespace ByteMemory

def wcslen (m : ByteMemory) (fuel str : Nat) : Option Nat := (m.readWideString fuel str 0).map List.length

/-- The loop of `wcsnlen`, with the turns that are left. -/
def wcsnlenLoop (m : ByteMemory) (str : Nat) : Nat → Nat → Nat
  | 0, rv => rv
  | left + 1, rv => if m.readInt (str + rv * 2) 2 = 0 then rv else wcsnlenLoop m str left (rv + 1)

def wcsnlen (m : ByteMemory) (fuel str numberOfElements : Nat) : Option Nat :=
  (m.readWideString fuel str numberOfElements).map fun _ => m.wcsnlenLoop str numberOfElements 0

/-- The address of an index that a search found, or 0. -/
def foundAddress (str : Nat) : Option Nat → Nat
  | some offset => str + offset * 2
  | none => 0

def wcschr (m : ByteMemory) (fuel str c : Nat) : Option Nat :=
  (m.readWideString fuel str 0).map fun text => foundAddress str ((text ++ [0]).idxOf? (c % 0x10000))

def wcsrchr (m : ByteMemory) (fuel str c : Nat) : Option Nat :=
  (m.readWideString fuel str 0).map fun text => foundAddress str (rfindChar (c % 0x10000) (text ++ [0]))

def wcscpy (m : ByteMemory) (fuel strDestination strSource : Nat) : Option (Nat × ByteMemory) := do
  let ws ← m.readWideString fuel strSource 0
  let m ← m.writeWideString ws strDestination
  return (strDestination, m)

def wcsncpy (m : ByteMemory) (fuel strDest strSource count : Nat) : Option (Nat × ByteMemory) := do
  if count ≠ 0 then
    let ws ← m.readCstr fuel strSource count 2
    return (strDest, m.writeChars 2 strDest (ws ++ List.replicate (count - ws.length) 0))
  else return (strDest, m)

def wcscat (m : ByteMemory) (fuel strDestination strSource : Nat) : Option (Nat × ByteMemory) := do
  let s1 ← m.readWideString fuel strDestination 0
  let s2 ← m.readWideString fuel strSource 0
  if (s1 ++ s2).any isSurrogate then none
  else return (strDestination, m.writeChars 2 strDestination (encodeUnits (s1 ++ s2) ++ [0]))

def wcscmp (m : ByteMemory) (fuel string1 string2 : Nat) : Option Int := do
  let s1 ← m.readWideString fuel string1 0
  let s2 ← m.readWideString fuel string2 0
  return getStringOrder s1 s2

def wcsncmp (m : ByteMemory) (fuel string1 string2 count : Nat) : Option Int :=
  if count = 0 then some 0
  else do
    let s1 ← m.readWideString fuel string1 count
    let s2 ← m.readWideString fuel string2 count
    return textOrder s1 s2

end ByteMemory

section Finding

theorem idxOf?_split {c : Nat} {pre suf : List Nat} (h : c ∉ pre) :
    (pre ++ c :: suf).idxOf? c = some pre.length := by
  induction pre with
  | nil => simp [List.idxOf?_cons]
  | cons p pre ih =>
    have hp : p ≠ c := fun heq => h (heq ▸ List.mem_cons_self)
    rw [List.cons_append, List.idxOf?_cons, if_neg (by simpa using hp), ih fun hmem => h (List.mem_cons_of_mem _ hmem)]
    rfl

theorem idxOf?_takeWhile {c : Nat} {xs : List Nat} (h : c ∈ xs) :
    xs.idxOf? c = some (xs.takeWhile (· ≠ c)).length := by
  induction xs with
  | nil => cases h
  | cons x xs ih =>
    rw [List.idxOf?_cons]
    by_cases hx : x = c
    · simp [hx]
    · rw [if_neg (by simpa using hx), List.takeWhile_cons_of_pos (by simpa using hx), List.length_cons,
        ih ((List.mem_cons.mp h).resolve_left (Ne.symm hx))]
      rfl

/-- The last `c` lies behind `xs` and what `ys` has before its own end run without a `c`. -/
theorem rfindChar_split (c : Nat) (xs ys : List Nat) :
    rfindChar c (xs ++ c :: ys) = some (xs.length + (ys.reverse.dropWhile (· ≠ c)).length) := by
  have hmem : c ∈ (xs ++ c :: ys).reverse := by simp
  have hrev : (xs ++ c :: ys).reverse = ys.reverse ++ c :: xs.reverse := by simp
  have hcut : (ys.reverse.takeWhile (· ≠ c)).length + (ys.reverse.dropWhile (· ≠ c)).length = ys.length := by
    rw [← List.length_append, List.takeWhile_append_dropWhile, List.length_reverse]
  have htake : ((xs ++ c :: ys).reverse.takeWhile (· ≠ c)).length = (ys.reverse.takeWhile (· ≠ c)).length := by
    rw [hrev, List.takeWhile_append]
    split
    next heq => rw [List.takeWhile_cons_of_neg (by simp), List.append_nil, heq]
    next => rfl
  rw [rfindChar, idxOf?_takeWhile hmem, Option.map_some, htake, List.length_append, List.length_cons]
  congr 1
  omega

theorem rfindChar_eq_none {c : Nat} {xs : List Nat} (h : c ∉ xs) : rfindChar c xs = none := by
  rw [rfindChar, List.idxOf?_eq_none_iff.mpr (by simpa using h), Option.map_none]

theorem dropWhile_eq_nil_of_not_mem {c : Nat} {xs : List Nat} (h : c ∉ xs) :
    xs.reverse.dropWhile (· ≠ c) = [] := by
  rw [List.dropWhile_eq_nil_iff]
  intro x hx
  have hne : x ≠ c := fun heq => h (heq ▸ List.mem_reverse.mp hx)
  simpa using hne

/-- The text around the first `c`. -/
theorem split_first {c : Nat} {xs : List Nat} (h : c ∈ xs) :
    ∃ suf, xs = xs.takeWhile (· ≠ c) ++ c :: suf ∧ c ∉ xs.takeWhile (· ≠ c) := by
  have hnot : c ∉ xs.takeWhile (· ≠ c) := fun hmem => by simpa using List.mem_takeWhile_imp hmem
  cases hdrop : xs.dropWhile (· ≠ c) with
  | nil =>
    rw [List.dropWhile_eq_nil_iff] at hdrop
    exact absurd (hdrop c h) (by simp)
  | cons d suf =>
    have hd : d = c := by
      have hhead := List.head_dropWhile_not (· ≠ c) (l := xs) (by rw [hdrop]; exact List.cons_ne_nil _ _)
      simp only [hdrop, List.head_cons] at hhead
      simpa using hhead
    refine ⟨suf, ?_, hnot⟩
    rw [← hd, ← hdrop, hd, List.takeWhile_append_dropWhile]

end Finding

end Speakeasy
