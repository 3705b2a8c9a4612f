import Speakeasy.PageRange

namespace Speakeasy

/-- A mapped region as the engine lists it: the last address is inside. -/
structure Region where
  first : Nat
  last : Nat
  perms : Nat
deriving DecidableEq, Repr

def Region.Covers (r : Region) (a : Nat) : Prop := r.first ≤ a ∧ a ≤ r.last

/-- Whole pages, and at least one. -/
def Region.Valid (r : Region) : Prop :=
  PageAligned r.first ∧ PageAligned (r.last + 1) ∧ r.first ≤ r.last

def Region.Apart (r s : Region) : Prop := r.last < s.first ∨ s.last < r.first

instance (r : Region) (a : Nat) : Decidable (r.Covers a) := inferInstanceAs (Decidable (_ ∧ _))
instance (r : Region) : Decidable r.Valid := inferInstanceAs (Decidable (_ ∧ _))
instance (r s : Region) : Decidable (r.Apart s) := inferInstanceAs (Decidable (_ ∨ _))

/-- In a list of disjoint regions, the first one that holds an address is the only one. -/
theorem find_covers_eq_some {rs : List Region} (hd : rs.Pairwise Region.Apart) {a p : Nat} :
    (rs.find? (fun r => decide (r.Covers a))).map Region.perms = some p ↔
      ∃ r ∈ rs, r.Covers a ∧ r.perms = p := by
  induction rs with
  | nil => simp
  | cons r rs ih =>
    obtain ⟨hr, hd⟩ := List.pairwise_cons.mp hd
    by_cases hc : r.Covers a
    · simp only [List.find?_cons, hc, decide_true, Option.map_some, Option.some.injEq,
        List.mem_cons, exists_eq_or_imp, true_and]
      refine ⟨Or.inl, ?_⟩
      rintro (h | ⟨s, hs, hsc, _⟩)
      · exact h
      · have := hr s hs
        simp only [Region.Covers, Region.Apart] at hc hsc this
        omega
    · simp only [List.find?_cons, hc, decide_false, ih hd, List.mem_cons, exists_eq_or_imp,
        false_and, false_or]

inductive UcError
  | arg
  | map
  | nomem
  | readUnmapped
  | writeUnmapped
deriving DecidableEq, Repr

/-- The memory interface of a page engine. The engine itself is not part of the program. -/
class PageEngine (ε : Type) where
  memRegions : ε → List Region
  memMap : ε → Nat → Nat → Nat → Except UcError ε
  memUnmap : ε → Nat → Nat → Except UcError ε
  memProtect : ε → Nat → Nat → Nat → Except UcError ε

namespace PageEngine

variable {ε : Type} [PageEngine ε]

/-- The permissions of the region that holds an address. -/
def permsAt (e : ε) (a : Nat) : Option Nat :=
  ((memRegions e).find? (fun r => decide (r.Covers a))).map Region.perms

def Mapped (e : ε) (a : Nat) : Prop := permsAt e a ≠ none

instance (e : ε) (a : Nat) : Decidable (Mapped e a) := inferInstanceAs (Decidable (_ ≠ _))

theorem mapped_iff {e : ε} {a : Nat} : Mapped e a ↔ ∃ r ∈ memRegions e, r.Covers a := by
  simp [Mapped, permsAt]

end PageEngine

open PageEngine

/-- An engine that maps, unmaps and protects page ranges exactly as asked. -/
class LawfulPageEngine (ε : Type) [PageEngine ε] : Prop where
  valid (e : ε) : ∀ r ∈ memRegions e, r.Valid
  disjoint (e : ε) : (memRegions e).Pairwise Region.Apart
  memMap_exact (e : ε) {base size : Nat} (perms : Nat) : PageRange base size →
    (∀ a, base ≤ a → a < base + size → ¬Mapped e a) →
    ∃ e', PageEngine.memMap e base size perms = .ok e' ∧
      ∀ a, permsAt e' a = if base ≤ a ∧ a < base + size then some perms else permsAt e a
  memUnmap_exact (e : ε) {base size : Nat} : PageRange base size →
    (∀ a, base ≤ a → a < base + size → Mapped e a) →
    ∃ e', PageEngine.memUnmap e base size = .ok e' ∧
      ∀ a, permsAt e' a = if base ≤ a ∧ a < base + size then none else permsAt e a
  memProtect_exact (e : ε) {base size : Nat} (perms : Nat) : PageRange base size →
    (∀ a, base ≤ a → a < base + size → Mapped e a) →
    ∃ e', PageEngine.memProtect e base size perms = .ok e' ∧
      ∀ a, permsAt e' a = if base ≤ a ∧ a < base + size then some perms else permsAt e a
  memProtect_empty (e : ε) (base perms : Nat) : PageEngine.memProtect e base 0 perms = .ok e

namespace PageEngine

variable {ε : Type} [PageEngine ε] [LawfulPageEngine ε]

theorem permsAt_eq_some {e : ε} {a p : Nat} :
    permsAt e a = some p ↔ ∃ r ∈ memRegions e, r.Covers a ∧ r.perms = p :=
  find_covers_eq_some (LawfulPageEngine.disjoint e)

/-- Mapping is by whole pages, so all addresses of a page agree. -/
theorem mapped_pageOf {e : ε} {a : Nat} : Mapped e (pageOf a) ↔ Mapped e a := by
  simp only [mapped_iff]
  constructor <;> rintro ⟨r, hr, hc⟩ <;> refine ⟨r, hr, ?_⟩ <;>
    obtain ⟨hf, hl, _⟩ := LawfulPageEngine.valid e r hr <;>
    simp only [Region.Covers, PageAligned, pageOf, pageSize] at * <;> omega

end PageEngine

/-- The parts of a region outside `[lo, hi)`. -/
def Region.cut (lo hi : Nat) (r : Region) : List Region :=
  (if r.first < lo then [{ r with last := min r.last (lo - 1) }] else []) ++
    (if hi ≤ r.last then [{ r with first := max r.first hi }] else [])

/-- The part of a region inside `[lo, hi)`. -/
def Region.clip (lo hi : Nat) (r : Region) : List Region :=
  if max r.first lo ≤ min r.last (hi - 1) then
    [{ r with first := max r.first lo, last := min r.last (hi - 1) }] else []

/-- An engine that keeps its regions in a list of disjoint page ranges. -/
structure RegionEngine where
  regions : List Region
  valid : ∀ r ∈ regions, r.Valid
  apart : regions.Pairwise Region.Apart

/-- An engine without regions. -/
def emptyEngine : RegionEngine := ⟨[], by simp, List.Pairwise.nil⟩

/-- `r` lies inside `s`, with the bounds of the part on page boundaries. -/
def Region.PartOf (r s : Region) : Prop := s.first ≤ r.first ∧ r.last ≤ s.last ∧ r.Valid

theorem Region.cut_partOf {lo hi : Nat} {r s : Region} (hlo : PageAligned lo) (hhi : PageAligned hi)
    (h : r.Valid) (hs : s ∈ r.cut lo hi) :
    s.PartOf r ∧ s.perms = r.perms ∧ (s.last < lo ∨ hi ≤ s.first) := by
  simp only [Region.cut, List.mem_append, List.mem_ite_nil_right, List.mem_singleton] at hs
  simp only [Region.PartOf, Region.Valid, PageAligned, pageSize] at *
  rcases hs with ⟨hlt, rfl⟩ | ⟨hle, rfl⟩
  · exact ⟨by dsimp only; omega, rfl, by dsimp only; omega⟩
  · exact ⟨by dsimp only; omega, rfl, by dsimp only; omega⟩

theorem Region.clip_partOf {lo hi : Nat} {r s : Region} (hlo : PageAligned lo) (hhi : PageAligned hi)
    (hpos : 0 < hi) (h : r.Valid) (hs : s ∈ r.clip lo hi) :
    s.PartOf r ∧ s.perms = r.perms ∧ lo ≤ s.first ∧ s.last < hi := by
  simp only [Region.clip, List.mem_ite_nil_right, List.mem_singleton] at hs
  simp only [Region.PartOf, Region.Valid, PageAligned, pageSize] at *
  obtain ⟨hlt, rfl⟩ := hs
  exact ⟨by dsimp only; omega, rfl, by dsimp only; omega, by dsimp only; omega⟩

theorem Region.exists_cut {lo hi a : Nat} {r : Region} (h : r.Covers a) (ha : a < lo ∨ hi ≤ a) :
    ∃ s ∈ r.cut lo hi, s.Covers a := by
  simp only [Region.cut, List.mem_append, List.mem_ite_nil_right, List.mem_singleton,
    Region.Covers] at *
  rcases ha with ha | ha
  · exact ⟨_, Or.inl ⟨by omega, rfl⟩, by simp; omega⟩
  · exact ⟨_, Or.inr ⟨by omega, rfl⟩, by simp; omega⟩

theorem Region.exists_clip {lo hi a : Nat} {r : Region} (h : r.Covers a) (hl : lo ≤ a)
    (hu : a < hi) : ∃ s ∈ r.clip lo hi, s.Covers a := by
  simp only [Region.clip, List.mem_ite_nil_right, List.mem_singleton, Region.Covers] at *
  exact ⟨_, ⟨by omega, rfl⟩, by simp; omega⟩

theorem Region.cut_apart {lo hi : Nat} (h : lo ≤ hi) (r : Region) :
    (r.cut lo hi).Pairwise Region.Apart := by
  unfold Region.cut
  split <;> split <;> simp [Region.Apart]
  omega

theorem Region.PartOf.apart {r s r' s' : Region} (hr : r'.PartOf r) (hs : s'.PartOf s)
    (h : r.Apart s) : r'.Apart s' := by
  obtain ⟨hr1, hr2, _⟩ := hr
  obtain ⟨hs1, hs2, _⟩ := hs
  simp only [Region.Apart] at *
  omega

/-- Replacing each region by disjoint parts of it keeps the list disjoint. -/
theorem pairwise_apart_flatMap {f : Region → List Region} {rs : List Region}
    (hf : ∀ r ∈ rs, (f r).Pairwise Region.Apart ∧ ∀ s ∈ f r, s.PartOf r)
    (h : rs.Pairwise Region.Apart) : (rs.flatMap f).Pairwise Region.Apart := by
  induction rs with
  | nil => exact List.Pairwise.nil
  | cons r rs ih =>
    obtain ⟨hr, h⟩ := List.pairwise_cons.mp h
    rw [List.flatMap_cons]
    apply List.pairwise_append.mpr
    refine ⟨(hf r (by simp)).1, ih (fun s hs => hf s (by simp [hs])) h, ?_⟩
    intro a ha b hb
    obtain ⟨s, hs, hb⟩ := List.mem_flatMap.mp hb
    exact Region.PartOf.apart ((hf r (by simp)).2 a ha) ((hf s (by simp [hs])).2 b hb) (hr s hs)

namespace RegionEngine

def memMap (e : RegionEngine) (base size perms : Nat) : Except UcError RegionEngine :=
  if h : PageRange base size then
    if hf : ∀ r ∈ e.regions, r.Apart ⟨base, base + size - 1, perms⟩ then
      .ok {
        regions := e.regions ++ [⟨base, base + size - 1, perms⟩]
        valid := by
          intro r hr
          rcases List.mem_append.mp hr with hr | hr
          · exact e.valid r hr
          · obtain ⟨hb, hs, hp⟩ := h
            simp only [List.mem_singleton] at hr
            subst hr
            simp only [Region.Valid, PageAligned, pageSize] at *
            omega
        apart := by
          apply List.pairwise_append.mpr
          refine ⟨e.apart, by simp, ?_⟩
          intro r hr s hs
          simp only [List.mem_singleton] at hs
          subst hs
          exact hf r hr }
    else .error .map
  else .error .arg

def memUnmap (e : RegionEngine) (base size : Nat) : Except UcError RegionEngine :=
  if h : PageRange base size then
    .ok {
      regions := e.regions.flatMap (Region.cut base (base + size))
      valid := by
        intro s hs
        obtain ⟨r, hr, hs⟩ := List.mem_flatMap.mp hs
        exact (Region.cut_partOf h.base_aligned (h.base_aligned.add h.size_aligned)
          (e.valid r hr) hs).1.2.2
      apart := pairwise_apart_flatMap
        (fun r hr => ⟨Region.cut_apart (by omega) r, fun s hs =>
          (Region.cut_partOf h.base_aligned (h.base_aligned.add h.size_aligned)
            (e.valid r hr) hs).1⟩) e.apart }
  else .error .arg

/-- The three parts of a region whose middle gets new permissions. -/
def protectRegion (lo hi perms : Nat) (r : Region) : List Region :=
  r.cut lo hi ++ (r.clip lo hi).map ({ · with perms := perms })

theorem protectRegion_partOf {lo hi perms : Nat} {r s : Region} (hlo : PageAligned lo)
    (hhi : PageAligned hi) (hpos : 0 < hi) (h : r.Valid) (hs : s ∈ protectRegion lo hi perms r) :
    s.PartOf r := by
  rcases List.mem_append.mp hs with hs | hs
  · exact (Region.cut_partOf hlo hhi h hs).1
  · obtain ⟨t, ht, rfl⟩ := List.mem_map.mp hs
    exact (Region.clip_partOf hlo hhi hpos h ht).1

theorem protectRegion_apart {lo hi perms : Nat} {r : Region} (hlo : PageAligned lo)
    (hhi : PageAligned hi) (hle : lo < hi) (h : r.Valid) :
    (protectRegion lo hi perms r).Pairwise Region.Apart := by
  apply List.pairwise_append.mpr
  refine ⟨Region.cut_apart hle.le r, ?_, ?_⟩
  · unfold Region.clip
    split <;> simp
  · intro s hs t ht
    obtain ⟨u, hu, rfl⟩ := List.mem_map.mp ht
    have h1 := (Region.cut_partOf hlo hhi h hs).2.2
    obtain ⟨⟨_, _, _⟩, _, h3, h4⟩ := Region.clip_partOf hlo hhi (by omega) h hu
    simp only [Region.Apart]
    omega

def memProtect (e : RegionEngine) (base size perms : Nat) : Except UcError RegionEngine :=
  if size = 0 then .ok e
  else if h : PageRange base size then
    .ok {
      regions := e.regions.flatMap (protectRegion base (base + size) perms)
      valid := by
        intro s hs
        obtain ⟨r, hr, hs⟩ := List.mem_flatMap.mp hs
        have := h.size_pos
        exact (protectRegion_partOf h.base_aligned (h.base_aligned.add h.size_aligned) (by omega)
          (e.valid r hr) hs).2.2
      apart := pairwise_apart_flatMap
        (fun r hr => ⟨protectRegion_apart h.base_aligned (h.base_aligned.add h.size_aligned)
            (Nat.lt_add_of_pos_right h.size_pos) (e.valid r hr),
          fun s hs => protectRegion_partOf h.base_aligned (h.base_aligned.add h.size_aligned)
            (Nat.add_pos_right _ h.size_pos) (e.valid r hr) hs⟩) e.apart }
  else .error .arg

instance : PageEngine RegionEngine where
  memRegions := RegionEngine.regions
  memMap := memMap
  memUnmap := memUnmap
  memProtect := memProtect

theorem permsAt_eq_some {e : RegionEngine} {a p : Nat} :
    permsAt e a = some p ↔ ∃ r ∈ e.regions, r.Covers a ∧ r.perms = p :=
  find_covers_eq_some e.apart

theorem memMap_exact (e : RegionEngine) {base size : Nat} (perms : Nat) (h : PageRange base size)
    (hf : ∀ a, base ≤ a → a < base + size → ¬Mapped e a) :
    ∃ e', e.memMap base size perms = .ok e' ∧
      ∀ a, permsAt e' a = if base ≤ a ∧ a < base + size then some perms else permsAt e a := by
  have hpos := h.size_pos
  have hfree : ∀ r ∈ e.regions, r.Apart ⟨base, base + size - 1, perms⟩ := by
    intro r hr
    by_contra hn
    have hv := (e.valid r hr).2.2
    simp only [Region.Apart, not_or, not_lt] at hn
    exact hf (max r.first base) (by omega) (by omega)
      (mapped_iff.mpr ⟨r, hr, by simp only [Region.Covers]; omega⟩)
  refine ⟨_, by rw [memMap, dif_pos h, dif_pos hfree], fun a => Option.ext fun p => ?_⟩
  rw [permsAt_eq_some]
  simp only [List.mem_append, List.mem_singleton, or_and_right, exists_or, exists_eq_left]
  split
  next ha =>
    have hn : ¬∃ r ∈ e.regions, r.Covers a ∧ r.perms = p := by
      rintro ⟨r, hr, hc, _⟩
      exact hf a ha.1 ha.2 (mapped_iff.mpr ⟨r, hr, hc⟩)
    rw [or_iff_right hn]
    simp only [Region.Covers, Option.some.injEq]
    exact ⟨fun h => h.2, fun h => ⟨by omega, h⟩⟩
  next ha =>
    rw [permsAt_eq_some]
    refine or_iff_left ?_
    rintro ⟨hc, _⟩
    simp only [Region.Covers] at hc
    omega

theorem memUnmap_exact (e : RegionEngine) {base size : Nat} (h : PageRange base size) :
    ∃ e', e.memUnmap base size = .ok e' ∧
      ∀ a, permsAt e' a = if base ≤ a ∧ a < base + size then none else permsAt e a := by
  refine ⟨_, by rw [memUnmap, dif_pos h], fun a => Option.ext fun p => ?_⟩
  rw [permsAt_eq_some]
  simp only [List.mem_flatMap]
  have hcut := fun r hr s => Region.cut_partOf (r := r) (s := s) h.base_aligned
    (h.base_aligned.add h.size_aligned) (e.valid r hr)
  split
  next ha =>
    simp only [reduceCtorEq, iff_false]
    rintro ⟨s, ⟨r, hr, hs⟩, hc, _⟩
    have := (hcut r hr s hs).2.2
    simp only [Region.Covers] at hc
    omega
  next ha =>
    rw [permsAt_eq_some]
    constructor
    · rintro ⟨s, ⟨r, hr, hs⟩, hc, hp⟩
      obtain ⟨⟨h1, h2, _⟩, h3, _⟩ := hcut r hr s hs
      simp only [Region.Covers] at *
      exact ⟨r, hr, by omega, h3 ▸ hp⟩
    · rintro ⟨r, hr, hc, hp⟩
      have hout : a < base ∨ base + size ≤ a := by omega
      obtain ⟨s, hs, hsc⟩ := Region.exists_cut hc hout
      exact ⟨s, ⟨r, hr, hs⟩, hsc, (hcut r hr s hs).2.1.trans hp⟩

/-- Protecting a range gives its mapped addresses the permissions, and changes no other address. -/
theorem memProtect_frame (e : RegionEngine) {base size : Nat} (perms : Nat) (h : PageRange base size) :
    ∃ e', e.memProtect base size perms = .ok e' ∧
      ∀ a, permsAt e' a = if base ≤ a ∧ a < base + size ∧ Mapped e a then some perms else permsAt e a := by
  have hpos := h.size_pos
  refine ⟨_, by rw [memProtect, if_neg hpos.ne', dif_pos h], fun a => Option.ext fun p => ?_⟩
  rw [permsAt_eq_some]
  simp only [List.mem_flatMap, protectRegion, List.mem_append, List.mem_map]
  have hcut := fun r hr s => Region.cut_partOf (r := r) (s := s) h.base_aligned
    (h.base_aligned.add h.size_aligned) (e.valid r hr)
  have hclip := fun r hr s => Region.clip_partOf (r := r) (s := s) h.base_aligned
    (h.base_aligned.add h.size_aligned) (by omega) (e.valid r hr)
  by_cases ha : base ≤ a ∧ a < base + size
  · have hnew : (∃ s, (∃ r ∈ e.regions, s ∈ Region.cut base (base + size) r ∨
        ∃ t ∈ Region.clip base (base + size) r, { t with perms := perms } = s) ∧ s.Covers a ∧ s.perms = p) ↔
          Mapped e a ∧ perms = p := by
      constructor
      · rintro ⟨s, ⟨r, hr, hs | ⟨t, ht, rfl⟩⟩, hc, hp⟩
        · have := (hcut r hr s hs).2.2
          simp only [Region.Covers] at hc
          omega
        · obtain ⟨⟨h1, h2, _⟩, _⟩ := hclip r hr t ht
          refine ⟨mapped_iff.mpr ⟨r, hr, ?_⟩, hp⟩
          simp only [Region.Covers] at *
          omega
      · rintro ⟨hm, hp⟩
        obtain ⟨r, hr, hc⟩ := mapped_iff.mp hm
        obtain ⟨s, hs, hsc⟩ := Region.exists_clip hc ha.1 ha.2
        exact ⟨_, ⟨r, hr, Or.inr ⟨s, hs, rfl⟩⟩, hsc, hp⟩
    rw [hnew]
    split
    next hin => simp [hin.2.2]
    next hno =>
      have hm : ¬Mapped e a := fun hm => hno ⟨ha.1, ha.2, hm⟩
      have hnone : permsAt e a = none := by simpa [Mapped] using hm
      simp [hm, hnone]
  · rw [if_neg fun hin => ha ⟨hin.1, hin.2.1⟩, permsAt_eq_some]
    constructor
    · rintro ⟨s, ⟨r, hr, hs | ⟨t, ht, rfl⟩⟩, hc, hp⟩
      · obtain ⟨⟨h1, h2, _⟩, h3, _⟩ := hcut r hr s hs
        simp only [Region.Covers] at *
        exact ⟨r, hr, by omega, h3 ▸ hp⟩
      · have := (hclip r hr t ht).2.2
        simp only [Region.Covers] at hc
        omega
    · rintro ⟨r, hr, hc, hp⟩
      have hout : a < base ∨ base + size ≤ a := by omega
      obtain ⟨s, hs, hsc⟩ := Region.exists_cut hc hout
      exact ⟨s, ⟨r, hr, Or.inl hs⟩, hsc, (hcut r hr s hs).2.1.trans hp⟩

theorem memProtect_exact (e : RegionEngine) {base size : Nat} (perms : Nat) (h : PageRange base size)
    (hm : ∀ a, base ≤ a → a < base + size → Mapped e a) :
    ∃ e', e.memProtect base size perms = .ok e' ∧
      ∀ a, permsAt e' a = if base ≤ a ∧ a < base + size then some perms else permsAt e a := by
  obtain ⟨e', hres, hperms⟩ := memProtect_frame e perms h
  refine ⟨e', hres, fun a => ?_⟩
  have hin : (base ≤ a ∧ a < base + size ∧ Mapped e a) ↔ (base ≤ a ∧ a < base + size) :=
    ⟨fun ha => ⟨ha.1, ha.2.1⟩, fun ha => ⟨ha.1, ha.2, hm a ha.1 ha.2⟩⟩
  rw [hperms a]
  simp only [hin]

instance : LawfulPageEngine RegionEngine where
  valid := RegionEngine.valid
  disjoint := RegionEngine.apart
  memMap_exact := memMap_exact
  memUnmap_exact e _ _ h _ := memUnmap_exact e h
  memProtect_exact := memProtect_exact
  memProtect_empty e base perms := by
    change RegionEngine.memProtect e base 0 perms = .ok e
    rw [RegionEngine.memProtect, if_pos rfl]

end RegionEngine

end Speakeasy
