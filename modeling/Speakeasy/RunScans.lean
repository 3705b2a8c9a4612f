import Mathlib.Data.List.Basic
import Mathlib.Data.List.Infix
import Mathlib.Data.List.Chain

/-! Runs of equal-width units in a list: the matches of a pattern such as `(?:unit){n,}`. -/

namespace RunScans

variable {α : Type*}

/-- A unit of a fixed width. `units` counts how many of them a list begins with. -/
structure RunPattern (α : Type*) where
  width : Nat
  units : List α → Nat
  width_pos : 0 < width
  fits : ∀ s, units s * width ≤ s.length
  mono : ∀ s t, s <+: t → units s ≤ units t
  whole : ∀ s, units (s.take (units s * width)) = units s
  inside : ∀ s d, d < units s * width → d + units (s.drop d) * width ≤ units s * width

variable (P : RunPattern α) (minLen : Nat)

/-- The matches of a scan from the left, with their offsets. A match skips what it took. -/
def runsFrom : Nat → Nat → List α → List (Nat × List α)
  | _, _, [] => []
  | skip + 1, off, _ :: s => runsFrom skip (off + 1) s
  | 0, off, b :: s =>
    let len := P.units (b :: s) * P.width
    if minLen ≤ P.units (b :: s) then
      (off, (b :: s).take len) :: runsFrom (len - 1) (off + 1) s
    else runsFrom 0 (off + 1) s

def runs (data : List α) : List (Nat × List α) := runsFrom P minLen 0 0 data

/-- The matches of a list from an offset on: each one is as long as it can be, and between them no
match begins. -/
def LeftToRight (data : List α) : Nat → List (Nat × List α) → Prop
  | start, [] => ∀ q, start ≤ q → q < data.length → P.units (data.drop q) < minLen
  | start, (off, text) :: rest =>
    start ≤ off ∧ (∀ q, start ≤ q → q < off → P.units (data.drop q) < minLen) ∧
      minLen ≤ P.units (data.drop off) ∧
      text = (data.drop off).take (P.units (data.drop off) * P.width) ∧
      LeftToRight data (off + text.length) rest

variable {P minLen}

theorem text_length {s text : List α} (h : text = s.take (P.units s * P.width)) :
    text.length = P.units s * P.width := by
  rw [h, List.length_take]
  have := P.fits s
  omega

theorem units_text {s text : List α} (h : text = s.take (P.units s * P.width)) :
    P.units text = P.units s := by
  rw [h, P.whole]

/-- A scan that skips finds what a scan from behind the skipped part finds. -/
theorem runsFrom_leftToRight (hmin : 0 < minLen) {data s : List α} {skip off : Nat}
    (hs : data.drop off = s) (hskip : skip ≤ s.length) :
    LeftToRight P minLen data (off + skip) (runsFrom P minLen skip off s) := by
  induction s generalizing skip off with
  | nil =>
    intro q hq hlen
    have : data.length ≤ off := List.drop_eq_nil_iff.mp hs
    omega
  | cons b s ih =>
    have hdrop : data.drop (off + 1) = s := by rw [← List.drop_drop, hs, List.drop_one, List.tail_cons]
    cases skip with
    | succ skip =>
      have hskip' : skip ≤ s.length := by simpa using hskip
      have hrest := ih hdrop hskip'
      rw [show off + 1 + skip = off + (skip + 1) by omega] at hrest
      exact hrest
    | zero =>
      rw [runsFrom]
      split
      next hle =>
        have hpos := P.width_pos
        have hlen : 0 < P.units (b :: s) * P.width := Nat.mul_pos (by omega) hpos
        have hfits := P.fits (b :: s)
        have hskip' : P.units (b :: s) * P.width - 1 ≤ s.length := by
          rw [List.length_cons] at hfits
          omega
        have hrest := ih hdrop hskip'
        refine ⟨le_rfl, fun q h1 h2 => ?_, ?_, ?_, ?_⟩
        · omega
        · rwa [hs]
        · rw [hs]
        · rw [text_length rfl]
          rw [show off + 1 + (P.units (b :: s) * P.width - 1) = off + P.units (b :: s) * P.width by
            omega] at hrest
          exact hrest
      next hlt =>
        have hrest := ih hdrop (Nat.zero_le s.length)
        have hhere : P.units (data.drop off) < minLen := by rw [hs]; omega
        cases hr : runsFrom P minLen 0 (off + 1) s with
        | nil =>
          rw [hr] at hrest
          intro q hq hlen
          by_cases heq : q = off
          · rwa [heq]
          · exact hrest q (by omega) hlen
        | cons m rest =>
          rw [hr] at hrest
          obtain ⟨h1, h2, h3⟩ := hrest
          refine ⟨by omega, fun q hq hlt => ?_, h3⟩
          by_cases heq : q = off
          · rwa [heq]
          · exact h2 q (by omega) hlt

theorem runs_leftToRight (hmin : 0 < minLen) (data : List α) :
    LeftToRight P minLen data 0 (runs P minLen data) :=
  runsFrom_leftToRight hmin rfl (Nat.zero_le _)

/-- A match that occurs where an earlier match is lies inside it. -/
theorem occurs_iff (hmin : 0 < minLen) {data text0 text : List α} {off0 off : Nat}
    {rest : List (Nat × List α)}
    (h0 : text0 = (data.drop off0).take (P.units (data.drop off0) * P.width))
    (h : LeftToRight P minLen data (off0 + text0.length) ((off, text) :: rest)) :
    (∃ q, off0 < q ∧ q < off ∧ text <+: data.drop q) ↔ text <:+: text0.tail := by
  obtain ⟨hle, hgap, hn, htext, _⟩ := h
  have hlen0 := text_length h0
  have hlen := text_length htext
  have hunits := units_text htext
  have hpos : 0 < text.length := by
    rw [hlen]
    exact Nat.mul_pos (by omega) P.width_pos
  constructor
  · rintro ⟨q, hq, hlt, hocc⟩
    have hge : P.units (data.drop off) ≤ P.units (data.drop q) := hunits ▸ P.mono _ _ hocc
    have hin : q < off0 + text0.length := by
      by_contra hout
      have := hgap q (by omega) hlt
      omega
    have hd : q - off0 < P.units (data.drop off0) * P.width := by omega
    have hinside := P.inside (data.drop off0) (q - off0) hd
    rw [List.drop_drop, show off0 + (q - off0) = q by omega] at hinside
    have hbound : text.length ≤ P.units (data.drop q) * P.width := by
      rw [hlen]
      exact Nat.mul_le_mul_right _ hge
    have htail : text0.tail.drop (q - off0 - 1) =
        (data.drop q).take (text0.length - (q - off0)) := by
      rw [← List.drop_one, List.drop_drop, show 1 + (q - off0 - 1) = q - off0 by omega, hlen0, h0,
        List.drop_take, List.drop_drop, show off0 + (q - off0) = q by omega]
    have hle : text <+: text0.tail.drop (q - off0 - 1) := by
      rw [htail]
      exact List.prefix_take_iff.mpr ⟨hocc, by omega⟩
    exact hle.isInfix.trans (List.drop_suffix _ _).isInfix
  · rintro ⟨a, b, hab⟩
    cases ht : text0 with
    | nil =>
      rw [ht, List.tail_nil] at hab
      have := congrArg List.length hab
      simp only [List.length_append, List.length_nil] at this
      omega
    | cons x tail =>
      have hsum : tail.length = a.length + text.length + b.length := by
        rw [ht, List.tail_cons] at hab
        rw [← hab, List.length_append, List.length_append]
      have hlong : text0.length = tail.length + 1 := by rw [ht, List.length_cons]
      refine ⟨off0 + 1 + a.length, by omega, by omega, ?_⟩
      obtain ⟨c, hc⟩ : text0 <+: data.drop off0 := h0 ▸ List.take_prefix _ _
      have hdrop : data.drop (off0 + 1 + a.length) = text ++ (b ++ c) := by
        rw [Nat.add_assoc, ← List.drop_drop, ← hc, ht]
        rw [ht, List.tail_cons] at hab
        rw [← hab, Nat.add_comm, List.cons_append, List.drop_succ_cons]
        simp
      exact ⟨b ++ c, hdrop.symm⟩

theorem LeftToRight.offsets_sorted (hmin : 0 < minLen) {data : List α} {start : Nat}
    {found : List (Nat × List α)} (h : LeftToRight P minLen data start found) :
    (∀ m ∈ found, start ≤ m.1) ∧ found.Pairwise fun m n => m.1 < n.1 := by
  induction found generalizing start with
  | nil => exact ⟨by simp, List.Pairwise.nil⟩
  | cons m rest ih =>
    obtain ⟨hle, _, hn, htext, hrest⟩ := h
    have hlen := text_length htext
    have hpos : 0 < m.2.length := by
      rw [hlen]
      exact Nat.mul_pos (by omega) P.width_pos
    obtain ⟨hge, hsorted⟩ := ih hrest
    refine ⟨fun x hx => ?_, List.pairwise_cons.mpr ⟨fun x hx => ?_, hsorted⟩⟩
    · rcases List.mem_cons.mp hx with rfl | hx
      · exact hle
      · have := hge x hx
        omega
    · have := hge x hx
      omega

/-- What matches from the left is determined. -/
theorem LeftToRight.unique (hmin : 0 < minLen) {data : List α} {start : Nat}
    {found other : List (Nat × List α)} (h : LeftToRight P minLen data start found)
    (h' : LeftToRight P minLen data start other) : found = other := by
  have hbound : ∀ {off}, minLen ≤ P.units (data.drop off) → off < data.length := by
    intro off hn
    have hfits := P.fits (data.drop off)
    have hpos : 0 < P.units (data.drop off) * P.width := Nat.mul_pos (by omega) P.width_pos
    rw [List.length_drop] at hfits
    omega
  induction found generalizing start other with
  | nil =>
    cases other with
    | nil => rfl
    | cons m rest =>
      obtain ⟨hle, _, hn, _⟩ := h'
      have := h m.1 hle (hbound hn)
      omega
  | cons m rest ih =>
    obtain ⟨hle, hgap, hn, htext, hrest⟩ := h
    cases other with
    | nil =>
      have := h' m.1 hle (hbound hn)
      omega
    | cons m' rest' =>
      obtain ⟨hle', hgap', hn', htext', hrest'⟩ := h'
      have hoff : m.1 = m'.1 := by
        rcases Nat.lt_trichotomy m.1 m'.1 with hlt | heq | hlt
        · have := hgap' m.1 hle hlt
          omega
        · exact heq
        · have := hgap m'.1 hle' hlt
          omega
      have htexts : m.2 = m'.2 := by rw [htext, htext', hoff]
      rw [← hoff, ← htexts] at hrest'
      rw [ih hrest hrest', Prod.ext hoff htexts]

end RunScans
