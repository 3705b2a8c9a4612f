import Speakeasy.MemoryRuns
import Mathlib.Logic.Function.Iterate

namespace Speakeasy

open PageEngine

variable {ε : Type} [PageEngine ε]

/-- `is_address_valid`. -/
def MemoryManager.isAddressValid (s : MemoryManager ε) (address : Nat) : Bool :=
  (s.getAddressMap address).isSome || (s.getReserveMap address).isSome

namespace GuestMemory

/-- `IsBadReadPtr` and `IsBadWritePtr` test the first and the last byte. -/
def isBadPtr (g : GuestMemory ε) (lp ucb : Nat) : Bool :=
  if lp ≠ 0 ∧ ucb ≠ 0 then !(g.mgr.isAddressValid lp && g.mgr.isAddressValid (lp + (ucb - 1)))
  else true

def isBadReadPtr (g : GuestMemory ε) (lp ucb : Nat) : Bool := g.isBadPtr lp ucb

def isBadWritePtr (g : GuestMemory ε) (lp ucb : Nat) : Bool := g.isBadPtr lp ucb

/-- The characters that the next round reads: those on the page, or one. -/
def chunkCount (cw addr remaining : Nat) : Nat := min remaining (max 1 ((0x1000 - addr % 0x1000) / cw))

/-- A character of the data is zero. -/
def hasNul (cw : Nat) (data : List UInt8) : Bool :=
  (List.range (data.length / cw)).any fun i => ((data.drop (i * cw)).take cw).all (· = 0)

def stringProbe (g : GuestMemory ε) (cw : Nat) : Nat → Nat → Nat → Except MemError Bool
  | 0, _, _ => .ok false
  | fuel + 1, addr, remaining =>
    if remaining = 0 then .ok false
    else
      let count := chunkCount cw addr remaining
      if !g.mgr.isAddressValid addr || !g.mgr.isAddressValid (addr + count * cw - 1) then .ok true
      else
        match g.memRead addr (count * cw) with
        | .error e => .error e
        | .ok data =>
          if hasNul cw data then .ok false
          else stringProbe g cw fuel (addr + count * cw) (remaining - count)

/-- `IsBadStringPtr`. A round takes at least one character. -/
def isBadStringPtr (g : GuestMemory ε) (cw lpsz ucchMax : Nat) : Except MemError Bool :=
  if ucchMax = 0 then .ok false else g.stringProbe cw ucchMax lpsz ucchMax

/-- The character at an index of a text is zero. -/
def NulAt (g : GuestMemory ε) (cw addr i : Nat) : Prop := ∀ k < cw, g.bytes (addr + i * cw + k) = 0

/-- The text up to its first zero, or its first characters, are in committed memory. -/
def Readable (g : GuestMemory ε) (cw addr ucchMax : Nat) : Prop :=
  ∃ n ≤ ucchMax, g.RangeMapped addr (n * cw) ∧ (n = ucchMax ∨ ∃ i, i + 1 = n ∧ g.NulAt cw addr i)

/-- The answer for a range says whether it is committed. -/
def PtrTruth (g : GuestMemory ε) (lp ucb : Nat) (bad : Bool) : Prop :=
  bad = false ↔ g.RangeMapped lp ucb

def StringTruth (g : GuestMemory ε) (cw addr ucchMax : Nat) (bad : Except MemError Bool) : Prop :=
  ∃ b, bad = .ok b ∧ (b = false ↔ g.Readable cw addr ucchMax)

/-- The first and the last byte of a range are in allocations or in reserved ranges. -/
def EndsValid (g : GuestMemory ε) (addr size : Nat) : Prop :=
  g.mgr.isAddressValid addr = true ∧ g.mgr.isAddressValid (addr + size - 1) = true

instance (g : GuestMemory ε) (addr size : Nat) : Decidable (g.EndsValid addr size) :=
  inferInstanceAs (Decidable (_ ∧ _))

/-- An address of a reserved range that is not committed. -/
def Uncommitted (g : GuestMemory ε) (a : Nat) : Prop := g.mgr.isAddressValid a = true ∧ ¬Mapped g.mgr.emuEng a

/-- A committed address outside every allocation, on the page of a small one. -/
def Slack (g : GuestMemory ε) (a : Nat) : Prop := g.mgr.isAddressValid a = false ∧ Mapped g.mgr.emuEng a

/-- Both ends are committed, and a byte between them is not. -/
def Hole (g : GuestMemory ε) (addr size : Nat) : Prop :=
  Mapped g.mgr.emuEng addr ∧ Mapped g.mgr.emuEng (addr + size - 1) ∧ ∃ i < size, ¬Mapped g.mgr.emuEng (addr + i)

/-- Between valid ends all is committed. -/
structure NoGap (g : GuestMemory ε) (addr size : Nat) : Prop where
  ends : g.EndsValid addr size → ¬g.Uncommitted addr ∧ ¬g.Uncommitted (addr + size - 1)
  between : g.EndsValid addr size → ¬g.Hole addr size

/-- What the probe of a range does not see: a size of 0, a committed page at 0, a reserved end, a hole, and the slack of
a page. -/
structure PtrSound (g : GuestMemory ε) (lp ucb : Nat) : Prop where
  nonempty : ucb ≠ 0
  notNull : lp = 0 → ¬g.RangeMapped lp ucb
  noGap : lp ≠ 0 → g.NoGap lp ucb
  noSlack : g.RangeMapped lp ucb → ¬g.Slack lp ∧ ¬g.Slack (lp + ucb - 1)

/-- The address and the characters that are left after a round. -/
def nextChunk (cw : Nat) (p : Nat × Nat) : Nat × Nat :=
  (p.1 + chunkCount cw p.1 p.2 * cw, p.2 - chunkCount cw p.1 p.2)

def chunkSize (cw : Nat) (p : Nat × Nat) : Nat := chunkCount cw p.1 p.2 * cw

/-- A chunk that the loop goes past. -/
def Passed (g : GuestMemory ε) (cw : Nat) (p : Nat × Nat) : Prop :=
  g.EndsValid p.1 (chunkSize cw p) ∧ g.RangeMapped p.1 (chunkSize cw p) ∧
    ∀ i < chunkCount cw p.1 p.2, ¬g.NulAt cw p.1 i

/-- The chunks that the loop comes to have no reserved end and no hole, and the ends of one that begins a readable text
are in no slack of a page. -/
def StringSound (g : GuestMemory ε) (cw : Nat) (p : Nat × Nat) : Prop :=
  ∀ k, ((nextChunk cw)^[k] p).2 ≠ 0 → (∀ j < k, g.Passed cw ((nextChunk cw)^[j] p)) →
    g.NoGap ((nextChunk cw)^[k] p).1 (chunkSize cw ((nextChunk cw)^[k] p)) ∧
    (g.Readable cw ((nextChunk cw)^[k] p).1 ((nextChunk cw)^[k] p).2 →
      g.EndsValid ((nextChunk cw)^[k] p).1 (chunkSize cw ((nextChunk cw)^[k] p)))

variable {g : GuestMemory ε} {cw addr remaining : Nat}

theorem noGap_iff {size : Nat} (hsize : size ≠ 0) :
    g.NoGap addr size ↔ (g.EndsValid addr size → g.RangeMapped addr size) := by
  have hlast : addr + size - 1 = addr + (size - 1) := by omega
  constructor
  · intro h hv i hi
    obtain ⟨hfirst, hend⟩ := h.ends hv
    have hfirst : Mapped g.mgr.emuEng addr := by
      by_contra hnot
      exact hfirst ⟨hv.1, hnot⟩
    have hend : Mapped g.mgr.emuEng (addr + size - 1) := by
      by_contra hnot
      exact hend ⟨hv.2, hnot⟩
    by_contra hnot
    exact h.between hv ⟨hfirst, hend, i, hi, hnot⟩
  · intro h
    refine ⟨fun hv => ⟨?_, ?_⟩, ?_⟩
    · rintro ⟨-, hnot⟩
      exact hnot (h hv 0 (by omega))
    · rintro ⟨-, hnot⟩
      rw [hlast] at hnot
      exact hnot (h hv (size - 1) (by omega))
    · rintro hv ⟨-, -, i, hi, hnot⟩
      exact hnot (h hv i hi)

/-- The ends of a committed range are valid when they are in no slack. -/
theorem endsValid_iff_of_mapped {size : Nat} (hsize : size ≠ 0) (h : g.RangeMapped addr size) :
    g.EndsValid addr size ↔ ¬g.Slack addr ∧ ¬g.Slack (addr + size - 1) := by
  have hfirst : Mapped g.mgr.emuEng addr := h 0 (by omega)
  have hend : Mapped g.mgr.emuEng (addr + size - 1) := by
    rw [show addr + size - 1 = addr + (size - 1) by omega]
    exact h (size - 1) (by omega)
  unfold EndsValid Slack
  rw [← Bool.not_eq_false, ← Bool.not_eq_false]
  constructor
  · exact fun hv => ⟨fun hs => hv.1 hs.1, fun hs => hv.2 hs.1⟩
  · exact fun hs => ⟨fun hno => hs.1 ⟨hno, hfirst⟩, fun hno => hs.2 ⟨hno, hend⟩⟩

theorem ptrTruth_iff (g : GuestMemory ε) (lp ucb : Nat) :
    g.PtrTruth lp ucb (g.isBadPtr lp ucb) ↔ g.PtrSound lp ucb := by
  by_cases hsize : ucb = 0
  · subst hsize
    have hempty : g.RangeMapped lp 0 := fun i hi => absurd hi (Nat.not_lt_zero i)
    refine iff_of_false (fun h => ?_) fun h => h.nonempty rfl
    have hbad := h.mpr hempty
    simp [isBadPtr] at hbad
  · have hends : g.isBadPtr lp ucb = false ↔ lp ≠ 0 ∧ g.EndsValid lp ucb := by
      have hlast : lp + (ucb - 1) = lp + ucb - 1 := by omega
      unfold isBadPtr EndsValid
      by_cases hlp : lp = 0
      · simp [hlp]
      · simp [hlp, hsize, hlast]
    unfold PtrTruth
    rw [hends]
    constructor
    · intro h
      refine ⟨hsize, fun hlp hmapped => (h.mpr hmapped).1 hlp, ?_, ?_⟩
      · exact fun hlp => (noGap_iff hsize).mpr fun hv => h.mp ⟨hlp, hv⟩
      · exact fun hmapped => (endsValid_iff_of_mapped hsize hmapped).mp (h.mpr hmapped).2
    · intro h
      constructor
      · exact fun hv => (noGap_iff hsize).mp (h.noGap hv.1) hv.2
      · intro hmapped
        have hlp : lp ≠ 0 := fun hzero => h.notNull hzero hmapped
        exact ⟨hlp, (endsValid_iff_of_mapped hsize hmapped).mpr (h.noSlack hmapped)⟩

omit [PageEngine ε] in
theorem hasNul_iff (g : GuestMemory ε) (hcw : 0 < cw) (addr count : Nat) :
    hasNul cw (g.bytes.readBytes addr (count * cw)) = true ↔ ∃ i < count, g.NulAt cw addr i := by
  unfold hasNul
  rw [ByteMemory.readBytes_length, Nat.mul_div_cancel count hcw, List.any_eq_true]
  simp only [List.mem_range]
  refine exists_congr fun i => and_congr_right fun hi => ?_
  have hend : i * cw + cw ≤ count * cw := by
    rw [← Nat.succ_mul]
    exact Nat.mul_le_mul_right cw hi
  have hchar : ((g.bytes.readBytes addr (count * cw)).drop (i * cw)).take cw =
      g.bytes.readBytes (addr + i * cw) cw := by
    apply List.ext_getElem
    · simp
      omega
    · intro k hk _
      simp [ByteMemory.readBytes, Nat.add_assoc]
  rw [hchar, List.all_eq_true]
  simp [ByteMemory.readBytes, NulAt]

theorem rangeMapped_add {a m n : Nat} :
    g.RangeMapped a (m + n) ↔ g.RangeMapped a m ∧ g.RangeMapped (a + m) n := by
  constructor
  · refine fun h => ⟨fun i hi => h i (by omega), fun i hi => ?_⟩
    have hin := h (m + i) (by omega)
    rwa [← Nat.add_assoc] at hin
  · rintro ⟨hm, hn⟩ i hi
    by_cases him : i < m
    · exact hm i him
    · have hin := hn (i - m) (by omega)
      rwa [show a + m + (i - m) = a + i by omega] at hin

theorem RangeMapped.mono {a m n : Nat} (h : g.RangeMapped a n) (hle : m ≤ n) : g.RangeMapped a m :=
  fun i hi => h i (by omega)

omit [PageEngine ε] in
theorem nulAt_add {m i : Nat} : g.NulAt cw addr (m + i) ↔ g.NulAt cw (addr + m * cw) i := by
  unfold NulAt
  refine forall_congr' fun k => forall_congr' fun _ => ?_
  rw [Nat.add_mul, ← Nat.add_assoc addr]

/-- A zero in a committed part makes the text readable. -/
theorem readable_of_nul {count i : Nat} (hmapped : g.RangeMapped addr (count * cw))
    (hle : count ≤ remaining) (hi : i < count) (hnul : g.NulAt cw addr i) :
    g.Readable cw addr remaining :=
  ⟨i + 1, by omega, hmapped.mono (Nat.mul_le_mul_right cw hi), Or.inr ⟨i, rfl, hnul⟩⟩

/-- A committed part without a zero leaves the rest to be read. -/
theorem readable_skip {count : Nat} (hmapped : g.RangeMapped addr (count * cw))
    (hle : count ≤ remaining) (hnul : ∀ i < count, ¬g.NulAt cw addr i) :
    g.Readable cw addr remaining ↔ g.Readable cw (addr + count * cw) (remaining - count) := by
  constructor
  · rintro ⟨n, hn, hrange, hend⟩
    have hcount : count ≤ n := by
      rcases hend with rfl | ⟨i, rfl, hzero⟩
      · exact hle
      · by_contra hlt
        exact hnul i (by omega) hzero
    obtain ⟨m, rfl⟩ := Nat.exists_eq_add_of_le hcount
    rw [Nat.add_mul] at hrange
    refine ⟨m, by omega, (rangeMapped_add.mp hrange).2, ?_⟩
    rcases hend with heq | ⟨i, hi, hzero⟩
    · exact Or.inl (by omega)
    · by_cases hin : i < count
      · exact absurd hzero (hnul i hin)
      · obtain ⟨j, rfl⟩ := Nat.exists_eq_add_of_le (Nat.le_of_not_lt hin)
        exact Or.inr ⟨j, by omega, nulAt_add.mp hzero⟩
  · rintro ⟨m, hm, hrange, hend⟩
    refine ⟨count + m, by omega, ?_, ?_⟩
    · rw [Nat.add_mul]
      exact rangeMapped_add.mpr ⟨hmapped, hrange⟩
    · rcases hend with heq | ⟨j, hj, hzero⟩
      · exact Or.inl (by omega)
      · exact Or.inr ⟨count + j, by omega, nulAt_add.mpr hzero⟩

theorem chunkCount_le : chunkCount cw addr remaining ≤ remaining := Nat.min_le_left _ _

theorem chunkCount_pos (h : remaining ≠ 0) : 0 < chunkCount cw addr remaining := by
  unfold chunkCount
  omega

theorem iterate_nextChunk_zero (cw addr k : Nat) : ((nextChunk cw)^[k] (addr, 0)).2 = 0 := by
  induction k generalizing addr with
  | zero => rfl
  | succ k ih =>
    rw [Function.iterate_succ_apply]
    have hnext : nextChunk cw (addr, 0) = (addr + chunkCount cw addr 0 * cw, 0) := by
      simp [nextChunk]
    rw [hnext]
    exact ih _

/-- The condition at the first chunk, and after it when the loop goes past it. -/
theorem stringSound_iff (p : Nat × Nat) (hp : p.2 ≠ 0) :
    g.StringSound cw p ↔
      g.NoGap p.1 (chunkSize cw p) ∧ (g.Readable cw p.1 p.2 → g.EndsValid p.1 (chunkSize cw p)) ∧
      (g.Passed cw p → g.StringSound cw (nextChunk cw p)) := by
  constructor
  · intro h
    have hfirst := h 0 hp (fun j hj => absurd hj (Nat.not_lt_zero j))
    refine ⟨hfirst.1, hfirst.2, fun hpass k hk hprev => ?_⟩
    have hrest := h (k + 1)
    rw [Function.iterate_succ_apply] at hrest
    refine hrest hk fun j hj => ?_
    cases j with
    | zero => exact hpass
    | succ j =>
      rw [Function.iterate_succ_apply]
      exact hprev j (by omega)
  · rintro ⟨hgap, hslack, hrest⟩ k hk hprev
    cases k with
    | zero => exact ⟨hgap, hslack⟩
    | succ k =>
      rw [Function.iterate_succ_apply] at hk ⊢
      refine hrest (hprev 0 (Nat.succ_pos k)) k hk fun j hj => ?_
      have hpass := hprev (j + 1) (by omega)
      rwa [Function.iterate_succ_apply] at hpass

section Round

variable {fuel : Nat} (hremaining : remaining ≠ 0)

include hremaining

theorem stringProbe_unknown (h : ¬g.EndsValid addr (chunkSize cw (addr, remaining))) :
    g.stringProbe cw (fuel + 1) addr remaining = .ok true := by
  have hinvalid : (!g.mgr.isAddressValid addr ||
      !g.mgr.isAddressValid (addr + chunkCount cw addr remaining * cw - 1)) = true := by
    simp only [EndsValid, chunkSize, not_and_or, Bool.not_eq_true] at h
    rcases h with hend | hend <;> simp [hend]
  unfold stringProbe
  rw [if_neg hremaining]
  exact if_pos hinvalid

theorem stringProbe_known (h : g.EndsValid addr (chunkSize cw (addr, remaining))) :
    g.stringProbe cw (fuel + 1) addr remaining =
      match g.memRead addr (chunkSize cw (addr, remaining)) with
      | .error e => .error e
      | .ok data =>
        if hasNul cw data then .ok false
        else g.stringProbe cw fuel (nextChunk cw (addr, remaining)).1 (nextChunk cw (addr, remaining)).2 := by
  have hvalid : ¬(!g.mgr.isAddressValid addr ||
      !g.mgr.isAddressValid (addr + chunkCount cw addr remaining * cw - 1)) = true := by
    simp only [EndsValid, chunkSize] at h
    simp [h.1, h.2]
  rw [stringProbe, if_neg hremaining]
  exact if_neg hvalid

theorem stringProbe_hole (h : g.EndsValid addr (chunkSize cw (addr, remaining)))
    (hhole : ¬g.RangeMapped addr (chunkSize cw (addr, remaining))) :
    g.stringProbe cw (fuel + 1) addr remaining = .error (.uc .readUnmapped) := by
  rw [stringProbe_known hremaining h, memRead, if_neg hhole]

theorem stringProbe_mapped (h : g.EndsValid addr (chunkSize cw (addr, remaining)))
    (hmapped : g.RangeMapped addr (chunkSize cw (addr, remaining))) :
    g.stringProbe cw (fuel + 1) addr remaining =
      if hasNul cw (g.bytes.readBytes addr (chunkSize cw (addr, remaining))) then .ok false
      else g.stringProbe cw fuel (nextChunk cw (addr, remaining)).1 (nextChunk cw (addr, remaining)).2 := by
  rw [stringProbe_known hremaining h, memRead, if_pos hmapped]

end Round

theorem readable_zero (g : GuestMemory ε) (cw addr : Nat) : g.Readable cw addr 0 :=
  ⟨0, le_rfl, by simp [RangeMapped], Or.inl rfl⟩

theorem stringTruth_zero (g : GuestMemory ε) (cw addr : Nat) :
    g.StringTruth cw addr 0 (.ok false) ↔ g.StringSound cw (addr, 0) :=
  iff_of_true ⟨false, rfl, iff_of_true rfl (readable_zero g cw addr)⟩
    fun k hk => absurd (iterate_nextChunk_zero cw addr k) hk

/-- The induction is on the rounds: a round answers, or leaves the rest of the text. -/
theorem stringProbe_truth_iff (hcw : 0 < cw) {fuel : Nat} (hfuel : remaining ≤ fuel) :
    g.StringTruth cw addr remaining (g.stringProbe cw fuel addr remaining) ↔
      g.StringSound cw (addr, remaining) := by
  induction fuel generalizing addr remaining with
  | zero =>
    have hzero : remaining = 0 := by omega
    subst hzero
    exact stringTruth_zero g cw addr
  | succ fuel ih =>
    by_cases hzero : remaining = 0
    · subst hzero
      exact stringTruth_zero g cw addr
    have hle : chunkCount cw addr remaining ≤ remaining := chunkCount_le
    have hpos : 0 < chunkCount cw addr remaining := chunkCount_pos hzero
    have hsize : chunkSize cw (addr, remaining) ≠ 0 := (Nat.mul_pos hpos hcw).ne'
    rw [stringSound_iff (addr, remaining) hzero, noGap_iff hsize]
    by_cases hends : g.EndsValid addr (chunkSize cw (addr, remaining))
    · by_cases hmapped : g.RangeMapped addr (chunkSize cw (addr, remaining))
      · rw [stringProbe_mapped hzero hends hmapped]
        split
        next hnul =>
          obtain ⟨i, hi, hchar⟩ := (hasNul_iff g hcw addr _).mp hnul
          have hread := readable_of_nul hmapped hle hi hchar
          refine iff_of_true ⟨false, rfl, iff_of_true rfl hread⟩ ⟨fun _ => hmapped, fun _ => hends, ?_⟩
          exact fun hpass => absurd hchar (hpass.2.2 i hi)
        next hnul =>
          have hnone : ∀ i < chunkCount cw addr remaining, ¬g.NulAt cw addr i :=
            fun i hi hz => hnul ((hasNul_iff g hcw addr _).mpr ⟨i, hi, hz⟩)
          have hpass : g.Passed cw (addr, remaining) := ⟨hends, hmapped, hnone⟩
          have hrest := @ih (nextChunk cw (addr, remaining)).1
            (nextChunk cw (addr, remaining)).2 (by simp only [nextChunk]; omega)
          have hskip : g.Readable cw addr remaining ↔ g.Readable cw (nextChunk cw (addr, remaining)).1
              (nextChunk cw (addr, remaining)).2 := readable_skip hmapped hle hnone
          unfold StringTruth at hrest ⊢
          rw [hskip, hrest]
          constructor
          · exact fun h => ⟨fun _ => hmapped, fun _ => hends, fun _ => h⟩
          · exact fun h => h.2.2 hpass
      · rw [stringProbe_hole hzero hends hmapped]
        refine iff_of_false ?_ fun h => hmapped (h.1 hends)
        rintro ⟨b, hb, -⟩
        cases hb
    · rw [stringProbe_unknown hzero hends]
      constructor
      · rintro ⟨b, hb, hiff⟩
        cases hb
        refine ⟨fun hv => absurd hv hends, fun hread => ?_, fun hpass => absurd hpass.1 hends⟩
        exact absurd (hiff.mpr hread) (by decide)
      · intro h
        exact ⟨true, rfl, iff_of_false (by decide) fun hread => hends (h.2.1 hread)⟩

/-- Each probe tells the truth exactly when its range or its text is sound. -/
theorem pointerProbes_truth_iff (g : GuestMemory ε) (cw lp ucb lpsz ucchMax : Nat) (hcw : 0 < cw) :
    (g.PtrTruth lp ucb (g.isBadReadPtr lp ucb) ↔ g.PtrSound lp ucb) ∧
      (g.PtrTruth lp ucb (g.isBadWritePtr lp ucb) ↔ g.PtrSound lp ucb) ∧
      (g.StringTruth cw lpsz ucchMax (g.isBadStringPtr cw lpsz ucchMax) ↔
        g.StringSound cw (lpsz, ucchMax)) := by
  refine ⟨ptrTruth_iff g lp ucb, ptrTruth_iff g lp ucb, ?_⟩
  rw [← stringProbe_truth_iff hcw (le_refl ucchMax)]
  unfold isBadStringPtr
  split
  next hzero =>
    subst hzero
    rfl
  next => rfl

/-- The guest after some calls, with memory that is zero. -/
def guestAfter (ops : List MemOp) : GuestMemory RegionEngine :=
  ⟨((MemSession.init emptyEngine).run plainEnv ops).mgr, fun _ => 0⟩

theorem pointerProbes_truth_iff_mapped :
    0 < 1 ∧
      ((guestAfter [.memMap { size := 0x1000, base := some 0x10000 }]).PtrTruth 0x10000 0x1000
        ((guestAfter [.memMap { size := 0x1000, base := some 0x10000 }]).isBadReadPtr 0x10000 0x1000) ↔
        (guestAfter [.memMap { size := 0x1000, base := some 0x10000 }]).PtrSound 0x10000 0x1000) ∧
      ((guestAfter [.memMap { size := 0x1000, base := some 0x10000 }]).PtrTruth 0x10000 0x1000
        ((guestAfter [.memMap { size := 0x1000, base := some 0x10000 }]).isBadWritePtr 0x10000 0x1000) ↔
        (guestAfter [.memMap { size := 0x1000, base := some 0x10000 }]).PtrSound 0x10000 0x1000) ∧
      ((guestAfter [.memMap { size := 0x1000, base := some 0x10000 }]).StringTruth 1 0x10ffe 4
        ((guestAfter [.memMap { size := 0x1000, base := some 0x10000 }]).isBadStringPtr 1 0x10ffe 4) ↔
        (guestAfter [.memMap { size := 0x1000, base := some 0x10000 }]).StringSound 1 (0x10ffe, 4)) :=
  ⟨by decide, pointerProbes_truth_iff (guestAfter [.memMap { size := 0x1000, base := some 0x10000 }])
    1 0x10000 0x1000 0x10ffe 4 (by decide)⟩

/-- A reserved page is no bad pointer for the probes, and the probe of a text on it raises. -/
theorem isBadReadPtr_reserved :
    ¬(guestAfter [.memReserve { size := 0x1000, base := some 0x10000 }]).PtrTruth 0x10000 1
        ((guestAfter [.memReserve { size := 0x1000, base := some 0x10000 }]).isBadReadPtr 0x10000 1) ∧
      (guestAfter [.memReserve { size := 0x1000, base := some 0x10000 }]).isBadStringPtr 1 0x10000 1 =
        .error (.uc .readUnmapped) := by
  refine ⟨fun h => ?_, by decide⟩
  have hbad : (guestAfter [.memReserve { size := 0x1000, base := some 0x10000 }]).isBadReadPtr
      0x10000 1 = false := by decide
  have hhole : ¬(guestAfter [.memReserve { size := 0x1000, base := some 0x10000 }]).RangeMapped
      0x10000 1 := by decide
  exact hhole (h.mp hbad)

end GuestMemory

end Speakeasy
