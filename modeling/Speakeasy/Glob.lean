import Mathlib.Data.List.Basic
import Mathlib.Data.List.Infix

namespace Speakeasy

/-- A piece of a glob pattern. The chunks of a set are what stands between its range hyphens. -/
inductive GlobToken
  | lit (c : Char)
  | any
  | star
  | set (negated : Bool) (chunks : List (List Char))
deriving DecidableEq, Repr

/-- The body of a set and what follows it, from what follows `[`. A `]` right after the start, or
after `!`, is part of the body. A set that nothing closes is no set. -/
def setBody (s : List Char) : Option (List Char × List Char) :=
  let skip := match s with
    | '!' :: ']' :: _ => 2
    | '!' :: _ => 1
    | ']' :: _ => 1
    | _ => 0
  match (s.drop skip).dropWhile (· ≠ ']') with
  | [] => none
  | _ :: rest => some (s.take skip ++ (s.drop skip).takeWhile (· ≠ ']'), rest)

/-- Split the body of a set at its range hyphens: the next one is at `skip` or later. -/
def splitChunks : Nat → Nat → List Char → List (List Char)
  | 0, _, body => [body]
  | fuel + 1, skip, body =>
    match (body.drop skip).findIdx? (· = '-') with
    | none => [body]
    | some k => body.take (skip + k) :: splitChunks fuel 2 (body.drop (skip + k + 1))

/-- A hyphen at the end of the body is a character. -/
def closeChunks : List (List Char) → List (List Char)
  | [] => []
  | [c] => [c]
  | [c, []] => [c ++ ['-']]
  | c :: d :: ds => c :: closeChunks (d :: ds)

/-- Remove the ranges whose first character is after the last one, from the right. -/
def dropEmptyRanges : List (List Char) → List (List Char)
  | [] => []
  | c :: rest =>
    match dropEmptyRanges rest with
    | [] => [c]
    | d :: ds =>
      match c.getLast?, d.head? with
      | some x, some y => if y < x then (c.dropLast ++ d.tail) :: ds else c :: d :: ds
      | _, _ => c :: d :: ds

def setToken (body : List Char) : GlobToken :=
  let skip := match body with
    | '!' :: _ => 2
    | _ => 1
  match dropEmptyRanges (closeChunks (splitChunks body.length skip body)) with
  | [['!']] => .any
  | ('!' :: c) :: cs => .set true (c :: cs)
  | cs => .set false cs

/-- `fnmatch.translate`, for at most `fuel` characters. -/
def globTokensLoop : Nat → List Char → List GlobToken
  | 0, _ => []
  | _, [] => []
  | fuel + 1, c :: s =>
    if c = '*' then .star :: globTokensLoop fuel s
    else if c = '?' then .any :: globTokensLoop fuel s
    else if c = '[' then
      match setBody s with
      | none => .lit '[' :: globTokensLoop fuel s
      | some (body, rest) => setToken body :: globTokensLoop fuel rest
    else .lit c :: globTokensLoop fuel s

def globTokens (pat : List Char) : List GlobToken := globTokensLoop pat.length pat

def chunksMatch (x : Char) : List (List Char) → Bool
  | [] => false
  | [c] => c.contains x
  | c :: d :: ds =>
    c.contains x || (match c.getLast?, d.head? with
      | some lo, some hi => decide (lo ≤ x ∧ x ≤ hi)
      | _, _ => false) || chunksMatch x (d :: ds)

def globMatch : List GlobToken → List Char → Bool
  | [], s => s.isEmpty
  | .star :: ts, s => s.tails.any fun t => globMatch ts t
  | .lit c :: ts, x :: s => decide (c = x) && globMatch ts s
  | .any :: ts, _ :: s => globMatch ts s
  | .set negated chunks :: ts, x :: s => (chunksMatch x chunks != negated) && globMatch ts s
  | _, [] => false

/-- `fnmatch.fnmatch` on a host that keeps the case of file names. -/
def fnmatch (name pat : List Char) : Bool := globMatch (globTokens pat) name

/-- No character of a pattern is special: it has no `*`, no `?` and no closed set. -/
def GlobFree (pat : List Char) : Prop := ∀ t ∈ globTokens pat, ∃ c, t = .lit c

def GlobToken.isLit : GlobToken → Bool
  | .lit _ => true
  | _ => false

theorem globFree_iff {pat : List Char} : GlobFree pat ↔ (globTokens pat).all GlobToken.isLit = true := by
  simp only [GlobFree, List.all_eq_true]
  refine forall_congr' fun t => forall_congr' fun _ => ?_
  cases t <;> simp [GlobToken.isLit]

instance (pat : List Char) : Decidable (GlobFree pat) := decidable_of_iff _ globFree_iff.symm

theorem setToken_ne_lit (body : List Char) (c : Char) : setToken body ≠ .lit c := by
  unfold setToken
  dsimp only
  generalize dropEmptyRanges _ = cs
  split <;> simp

theorem globTokensLoop_eq_lits {fuel : Nat} {pat : List Char} (hf : pat.length ≤ fuel)
    (h : ∀ t ∈ globTokensLoop fuel pat, ∃ c, t = .lit c) :
    globTokensLoop fuel pat = pat.map .lit := by
  induction fuel generalizing pat with
  | zero =>
    have hnil := List.length_eq_zero_iff.mp (Nat.le_zero.mp hf)
    subst hnil
    rfl
  | succ fuel ih =>
    cases pat with
    | nil => rfl
    | cons c s =>
      have hlen : s.length ≤ fuel := Nat.le_of_succ_le_succ hf
      rw [globTokensLoop] at h ⊢
      by_cases hstar : c = '*'
      · simp [hstar] at h
      by_cases hany : c = '?'
      · simp [hany] at h
      by_cases hset : c = '['
      · subst hset
        cases hb : setBody s with
        | none =>
          simp only [hb, hstar, hany, if_false, if_true] at h ⊢
          rw [ih hlen fun t ht => h t (List.mem_cons_of_mem _ ht)]
          rfl
        | some r =>
          simp only [hb, hstar, hany, if_false, if_true] at h
          obtain ⟨x, hx⟩ := h _ List.mem_cons_self
          exact absurd hx (setToken_ne_lit _ _)
      · simp only [hstar, hany, hset, if_false] at h ⊢
        rw [ih hlen fun t ht => h t (List.mem_cons_of_mem _ ht)]
        rfl

theorem globMatch_lits (pat name : List Char) : globMatch (pat.map .lit) name = true ↔ name = pat := by
  induction pat generalizing name with
  | nil => simp [globMatch]
  | cons c pat ih =>
    cases name with
    | nil => simp [globMatch]
    | cons x name =>
      simp only [List.map_cons, globMatch, Bool.and_eq_true, decide_eq_true_eq, ih, List.cons.injEq]
      exact and_congr_left fun _ => eq_comm

/-- A pattern without special characters matches itself only. -/
theorem fnmatch_globFree {pat : List Char} (h : GlobFree pat) (name : List Char) :
    fnmatch name pat = true ↔ name = pat := by
  rw [fnmatch, globTokens, globTokensLoop_eq_lits le_rfl h]
  exact globMatch_lits pat name

example : fnmatch "ab".toList "a[!a-c]".toList = false ∧ fnmatch "a-".toList "a[b-]".toList = true := by
  decide

end Speakeasy
