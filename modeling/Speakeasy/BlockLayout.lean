import Mathlib.Data.List.Basic
import Mathlib.Data.List.Pairwise
import Mathlib.Logic.Basic

namespace Speakeasy

/-- A byte range and the block that holds it. Several extents can share a block. -/
structure Extent where
  base : Nat
  size : Nat
  blockBase : Nat
  blockSize : Nat
deriving DecidableEq, Repr

namespace Extent

def Covers (x : Extent) (a : Nat) : Prop := x.base ≤ a ∧ a < x.base + x.size

def BlockCovers (x : Extent) (a : Nat) : Prop := x.blockBase ≤ a ∧ a < x.blockBase + x.blockSize

/-- A nonempty range inside its block. -/
def Inside (x : Extent) : Prop :=
  0 < x.size ∧ x.blockBase ≤ x.base ∧ x.base + x.size ≤ x.blockBase + x.blockSize

def Apart (x y : Extent) : Prop := x.base + x.size ≤ y.base ∨ y.base + y.size ≤ x.base

def SameBlock (x y : Extent) : Prop := x.blockBase = y.blockBase ∧ x.blockSize = y.blockSize

def BlocksApart (x y : Extent) : Prop :=
  x.blockBase + x.blockSize ≤ y.blockBase ∨ y.blockBase + y.blockSize ≤ x.blockBase

theorem Inside.blockCovers {x : Extent} (h : x.Inside) {a : Nat} (ha : x.Covers a) :
    x.BlockCovers a := by
  simp only [Inside, Covers, BlockCovers] at *
  omega

theorem Inside.covers_base {x : Extent} (h : x.Inside) : x.Covers x.base := by
  simp only [Inside, Covers] at *
  omega

theorem BlocksApart.apart {x y : Extent} (hx : x.Inside) (hy : y.Inside) (h : x.BlocksApart y) :
    x.Apart y := by
  simp only [Inside, BlocksApart, Apart] at *
  omega

/-- A range without mapped bytes meets no block whose bytes are all mapped. -/
theorem Inside.fresh_apart {x : Extent} (h : x.Inside) {mapped : Nat → Prop}
    (hx : ∀ a, x.BlockCovers a → mapped a) {base size : Nat} (hpos : 0 < size)
    (hf : ∀ a, base ≤ a → a < base + size → ¬mapped a) :
    x.blockBase + x.blockSize ≤ base ∨ base + size ≤ x.blockBase := by
  by_contra hn
  simp only [Inside, not_or] at h hn
  exact hf (max base x.blockBase) (by omega) (by omega) (hx _ ⟨by omega, by omega⟩)

end Extent

/-- The block that small extents are cut from, and how much of it is used. -/
structure Cursor where
  base : Nat
  size : Nat
  offset : Nat

/-- Extents in blocks over a set of mapped bytes, with a block that is still being filled. -/
structure Layout where
  extents : List Extent
  mapped : Nat → Prop
  cursor : Option Cursor

namespace Layout

/-- The bytes of `outside` are mapped by somebody else. -/
structure Sound (outside : Nat → Prop) (l : Layout) : Prop where
  inside : ∀ x ∈ l.extents, x.Inside
  mapped : ∀ x ∈ l.extents, ∀ a, x.BlockCovers a → l.mapped a
  owned : ∀ a, l.mapped a → (∃ x ∈ l.extents, x.BlockCovers a) ∨ outside a
  apart : l.extents.Pairwise Extent.Apart
  blocks : ∀ x ∈ l.extents, ∀ y ∈ l.extents, x.SameBlock y ∨ x.BlocksApart y
  headed : ∀ x ∈ l.extents, ∃ y ∈ l.extents, y.SameBlock x ∧ y.base = x.blockBase
  cursor_headed : ∀ c ∈ l.cursor, ∃ y ∈ l.extents,
    y.blockBase = c.base ∧ y.blockSize = c.size ∧ y.base = c.base
  cursor_used : ∀ c ∈ l.cursor, ∀ x ∈ l.extents, x.blockBase = c.base →
    x.base + x.size ≤ c.base + c.offset

variable {outside : Nat → Prop} {l : Layout}

theorem sound_empty {mapped : Nat → Prop} (h : ∀ a, mapped a → outside a) :
    Sound outside ⟨[], mapped, none⟩ := by
  constructor <;> simp
  exact h

theorem Sound.closeCursor (h : l.Sound outside) : Sound outside { l with cursor := none } :=
  { h with
    cursor_headed := by simp
    cursor_used := by simp }

/-- An extent is in the open block or apart from it. -/
theorem Sound.cursor_cases (h : l.Sound outside) {c : Cursor} (hc : l.cursor = some c) {x : Extent}
    (hx : x ∈ l.extents) :
    (x.blockBase = c.base ∧ x.blockSize = c.size ∧ x.base + x.size ≤ c.base + c.offset) ∨
      x.blockBase + x.blockSize ≤ c.base ∨ c.base + c.size ≤ x.blockBase := by
  obtain ⟨y, hy, hb, hs, _⟩ := h.cursor_headed c hc
  rcases h.blocks x hx y hy with hsame | hapart
  · have hxb := hsame.1.trans hb
    exact Or.inl ⟨hxb, hsame.2.trans hs, h.cursor_used c hc x hx hxb⟩
  · simp only [Extent.BlocksApart, hb, hs] at hapart
    exact Or.inr hapart

/-- A fresh range becomes a block with its first extent at the start. -/
theorem Sound.addBlock (h : l.Sound outside) {base size total : Nat} (hpos : 0 < size)
    (hle : size ≤ total) (hf : ∀ a, base ≤ a → a < base + total → ¬l.mapped a)
    {mapped : Nat → Prop} (hm : ∀ a, mapped a ↔ (base ≤ a ∧ a < base + total) ∨ l.mapped a) :
    Sound outside ⟨l.extents ++ [⟨base, size, base, total⟩], mapped, l.cursor⟩ := by
  have htotal : 0 < total := Nat.lt_of_lt_of_le hpos hle
  have hinside : Extent.Inside ⟨base, size, base, total⟩ :=
    ⟨hpos, Nat.le_refl _, Nat.add_le_add_left hle base⟩
  have hapart := fun x hx => (h.inside x hx).fresh_apart (h.mapped x hx) htotal hf
  refine ⟨?_, ?_, ?_, ?_, ?_, ?_, ?_, ?_⟩
  · intro x hx
    rcases List.mem_append.mp hx with hx | hx
    · exact h.inside x hx
    · cases List.mem_singleton.mp hx
      exact hinside
  · intro x hx a ha
    rcases List.mem_append.mp hx with hx | hx
    · exact (hm a).mpr (Or.inr (h.mapped x hx a ha))
    · cases List.mem_singleton.mp hx
      exact (hm a).mpr (Or.inl ha)
  · intro a ha
    rcases (hm a).mp ha with ha | ha
    · exact Or.inl ⟨_, List.mem_append_right _ (List.mem_singleton_self _), ha⟩
    · exact (h.owned a ha).imp_left fun ⟨x, hx, hxa⟩ => ⟨x, List.mem_append_left _ hx, hxa⟩
  · apply List.pairwise_append.mpr
    refine ⟨h.apart, by simp, fun x hx y hy => ?_⟩
    cases List.mem_singleton.mp hy
    exact Extent.BlocksApart.apart (h.inside x hx) hinside (hapart x hx)
  · intro x hx y hy
    rcases List.mem_append.mp hx with hx | hx <;> rcases List.mem_append.mp hy with hy | hy
    · exact h.blocks x hx y hy
    · cases List.mem_singleton.mp hy
      exact Or.inr (hapart x hx)
    · cases List.mem_singleton.mp hx
      exact Or.inr (hapart y hy).symm
    · cases List.mem_singleton.mp hx
      cases List.mem_singleton.mp hy
      exact Or.inl ⟨rfl, rfl⟩
  · intro x hx
    rcases List.mem_append.mp hx with hx | hx
    · obtain ⟨y, hy, hs⟩ := h.headed x hx
      exact ⟨y, List.mem_append_left _ hy, hs⟩
    · cases List.mem_singleton.mp hx
      exact ⟨_, List.mem_append_right _ (List.mem_singleton_self _), ⟨rfl, rfl⟩, rfl⟩
  · intro c hc
    obtain ⟨y, hy, hs⟩ := h.cursor_headed c hc
    exact ⟨y, List.mem_append_left _ hy, hs⟩
  · intro c hc x hx hb
    rcases List.mem_append.mp hx with hx | hx
    · exact h.cursor_used c hc x hx hb
    · -- The new block would start where the open one does, so they would share a byte.
      cases List.mem_singleton.mp hx
      obtain ⟨y, hy, hyb, _, _⟩ := h.cursor_headed c hc
      have hin := h.inside y hy
      rcases hapart y hy with hlt | hlt <;> simp only [Extent.Inside] at hin hb <;> omega

/-- A fresh range becomes the block that the next small extents are cut from. -/
theorem Sound.openBlock (h : l.Sound outside) {base size total : Nat} (hpos : 0 < size)
    (hle : size ≤ total) (hf : ∀ a, base ≤ a → a < base + total → ¬l.mapped a)
    {mapped : Nat → Prop} (hm : ∀ a, mapped a ↔ (base ≤ a ∧ a < base + total) ∨ l.mapped a) :
    Sound outside ⟨l.extents ++ [⟨base, size, base, total⟩], mapped, some ⟨base, total, size⟩⟩ := by
  have hadd := h.closeCursor.addBlock hpos hle hf hm
  refine { hadd with cursor_headed := ?_, cursor_used := ?_ }
  · intro c hc
    cases Option.mem_some.mp hc
    exact ⟨_, List.mem_append_right _ (List.mem_singleton_self _), rfl, rfl, rfl⟩
  · intro c hc x hx hb
    cases Option.mem_some.mp hc
    rcases List.mem_append.mp hx with hx | hx
    · have hin := h.inside x hx
      have := hin.fresh_apart (h.mapped x hx) (Nat.lt_of_lt_of_le hpos hle) hf
      simp only [Extent.Inside] at hin hb
      omega
    · cases List.mem_singleton.mp hx
      exact Nat.le_refl _

/-- The next extent of the open block starts where the last one ended. -/
theorem Sound.carve (h : l.Sound outside) {c : Cursor} (hc : l.cursor = some c) {size : Nat}
    (hpos : 0 < size) (hfit : c.offset + size ≤ c.size) :
    Sound outside ⟨l.extents ++ [⟨c.base + c.offset, size, c.base, c.size⟩], l.mapped,
      some ⟨c.base, c.size, c.offset + size⟩⟩ := by
  have hcur := fun x hx => h.cursor_cases hc (x := x) hx
  obtain ⟨head, hhead, hbase, hsize, hstart⟩ := h.cursor_headed c hc
  refine ⟨?_, ?_, ?_, ?_, ?_, ?_, ?_, ?_⟩
  · intro x hx
    rcases List.mem_append.mp hx with hx | hx
    · exact h.inside x hx
    · cases List.mem_singleton.mp hx
      exact ⟨hpos, by dsimp only; omega, by dsimp only; omega⟩
  · intro x hx a ha
    rcases List.mem_append.mp hx with hx | hx
    · exact h.mapped x hx a ha
    · cases List.mem_singleton.mp hx
      refine h.mapped head hhead a ?_
      simpa only [Extent.BlockCovers, hbase, hsize] using ha
  · intro a ha
    exact (h.owned a ha).imp_left fun ⟨x, hx, hxa⟩ => ⟨x, List.mem_append_left _ hx, hxa⟩
  · apply List.pairwise_append.mpr
    refine ⟨h.apart, by simp, fun x hx y hy => ?_⟩
    cases List.mem_singleton.mp hy
    have hin := h.inside x hx
    have := hcur x hx
    simp only [Extent.Inside, Extent.Apart] at *
    omega
  · intro x hx y hy
    rcases List.mem_append.mp hx with hx | hx <;> rcases List.mem_append.mp hy with hy | hy
    · exact h.blocks x hx y hy
    · cases List.mem_singleton.mp hy
      exact (hcur x hx).imp (fun h => ⟨h.1, h.2.1⟩) id
    · cases List.mem_singleton.mp hx
      exact (hcur y hy).imp (fun h => ⟨h.1.symm, h.2.1.symm⟩) Or.symm
    · cases List.mem_singleton.mp hx
      cases List.mem_singleton.mp hy
      exact Or.inl ⟨rfl, rfl⟩
  · intro x hx
    rcases List.mem_append.mp hx with hx | hx
    · obtain ⟨y, hy, hs⟩ := h.headed x hx
      exact ⟨y, List.mem_append_left _ hy, hs⟩
    · cases List.mem_singleton.mp hx
      exact ⟨head, List.mem_append_left _ hhead, ⟨hbase, hsize⟩, hstart⟩
  · intro d hd
    cases Option.mem_some.mp hd
    exact ⟨head, List.mem_append_left _ hhead, hbase, hsize, hstart⟩
  · intro d hd x hx hb
    cases Option.mem_some.mp hd
    rcases List.mem_append.mp hx with hx | hx
    · have := h.cursor_used c hc x hx hb
      dsimp only
      omega
    · cases List.mem_singleton.mp hx
      dsimp only
      omega

/-- Unmapping a block and dropping all its extents leaves the other blocks as they are. -/
theorem Sound.dropBlock (h : l.Sound outside) {x : Extent} (hx : x ∈ l.extents)
    {extents : List Extent} (hsub : extents.Sublist l.extents)
    (hiff : ∀ y ∈ l.extents, y ∈ extents ↔ y.blockBase ≠ x.blockBase) {mapped : Nat → Prop}
    (hm : ∀ a, mapped a ↔ ¬x.BlockCovers a ∧ l.mapped a) : Sound outside ⟨extents, mapped, none⟩ := by
  have hmem := fun y hy => hsub.subset (a := y) hy
  refine ⟨fun y hy => h.inside y (hmem y hy), ?_, ?_, h.apart.sublist hsub,
    fun y hy z hz => h.blocks y (hmem y hy) z (hmem z hz), ?_, by simp, by simp⟩
  · intro y hy a ha
    refine (hm a).mpr ⟨fun hxa => ?_, h.mapped y (hmem y hy) a ha⟩
    rcases h.blocks y (hmem y hy) x hx with hs | hs
    · exact (hiff y (hmem y hy)).mp hy hs.1
    · simp only [Extent.BlockCovers, Extent.BlocksApart] at *
      omega
  · intro a ha
    obtain ⟨hxa, ha⟩ := (hm a).mp ha
    refine (h.owned a ha).imp_left fun ⟨y, hy, hya⟩ => ⟨y, (hiff y hy).mpr fun hb => hxa ?_, hya⟩
    rcases h.blocks y hy x hx with hs | hs
    · simpa only [Extent.BlockCovers, hs.1, hs.2] using hya
    · have := h.inside y hy
      have := h.inside x hx
      simp only [Extent.BlocksApart, Extent.Inside] at *
      omega
  · intro y hy
    obtain ⟨z, hz, hs, hb⟩ := h.headed y (hmem y hy)
    refine ⟨z, (hiff z hz).mpr ?_, hs, hb⟩
    rw [hs.1]
    exact (hiff y (hmem y hy)).mp hy

end Layout

end Speakeasy
