import Speakeasy.ImportSlots

namespace Speakeasy

inductive DelayFault
  | outside
  | truncated
  | attributes
  | unterminated
  /-- `PEFormatError` of `pe.get_data`. -/
  | format
deriving DecidableEq, Repr

/-- A directory entry of the optional header. -/
structure DataDirectory where
  virtualAddress : Nat
  size : Nat

/-- The fields of a delay import descriptor that are checked. -/
structure DelayDescriptor where
  attrs : Nat
  name : Nat
  iat : Nat
  names : Nat
deriving DecidableEq, Repr

namespace PeView

variable (pe : PeView)

/-- The dwords of a descriptor. -/
def descriptorWords (raw : List UInt8) (d : Nat) : List Nat :=
  (List.range 8).map fun i => fromBytes ((raw.drop (32 * d + 4 * i)).take 4)

def descriptorOf (words : List Nat) : DelayDescriptor :=
  ⟨words.getD 0 0, words.getD 1 0, words.getD 3 0, words.getD 4 0⟩

/-- The fields of an old descriptor are VAs. -/
def relative (attrs field : Nat) : Int := if attrs = 0 then field - pe.base else field

def readBytes (rva length : Nat) : Except DelayFault (List UInt8) :=
  match pe.getData rva length with
  | none => .error .format
  | some raw => if raw.length ≠ length then .error .truncated else .ok raw

/-- The loop over the thunks of a descriptor. -/
def countThunks (iat names count : Nat) : Except DelayFault Nat :=
  let slot := names + count * pe.width
  if pe.imageSize < slot + pe.width then .error .unterminated
  else if pe.imageSize < iat + count * pe.width + pe.width then .error .outside
  else
    match pe.readBytes slot pe.width with
    | .error e => .error e
    | .ok thunk => if fromBytes thunk = 0 then .ok count else countThunks iat names (count + 1)
termination_by pe.imageSize - (names + count * pe.width)
decreasing_by
  have hpos := pe.width_pos
  rw [Nat.succ_mul]
  omega

def countDescriptor (d : DelayDescriptor) : Except DelayFault Nat :=
  if ¬(d.attrs = 0 ∨ d.attrs = 1) ∨ (pe.arch = .amd64 ∧ d.attrs ≠ 1) then .error .attributes
  else
    let name := pe.relative d.attrs d.name
    let iat := pe.relative d.attrs d.iat
    let names := pe.relative d.attrs d.names
    if ¬(0 < name ∧ name < pe.imageSize) then .error .outside
    else if ¬(0 < iat ∧ iat ≤ pe.imageSize - pe.width) then .error .outside
    else if ¬(0 < names ∧ names ≤ pe.imageSize - pe.width) then .error .outside
    else pe.countThunks iat.toNat names.toNat 0

/-- The counts of the descriptors from one on; the first argument is how many still fit in the directory. -/
def countDescriptors (raw : List UInt8) : Nat → Nat → Except DelayFault (List Nat)
  | 0, _ => .error .unterminated
  | left + 1, d =>
    let words := descriptorWords raw d
    if words.all (· = 0) then .ok []
    else
      match pe.countDescriptor (descriptorOf words) with
      | .error e => .error e
      | .ok count => (countDescriptors raw left (d + 1)).map (count :: ·)

/-- `_delay_import_directory` -/
def delayImportDirectory (directories : List DataDirectory) :
    Except DelayFault (Nat × List UInt8 × List Nat) :=
  match directories[13]? with
  | none => .ok (0, [], [])
  | some directory =>
    if directory.virtualAddress = 0 ∧ directory.size = 0 then .ok (0, [], [])
    else if directory.virtualAddress = 0 ∨ directory.size < 32 ∨
        pe.imageSize < directory.virtualAddress + directory.size then .error .outside
    else
      match pe.readBytes directory.virtualAddress directory.size with
      | .error e => .error e
      | .ok raw =>
        (pe.countDescriptors raw (directory.size / 32) 0).map fun counts =>
          (directory.virtualAddress, raw, counts)

/-- A thunk of a table, read in the image. -/
def ThunkAt (names k value : Nat) : Prop :=
  names + k * pe.width + pe.width ≤ pe.imageSize ∧
    ∃ thunk, pe.getData (names + k * pe.width) pe.width = some thunk ∧ thunk.length = pe.width ∧
      fromBytes thunk = value

def SlotAt (iat k : Nat) : Prop := iat + k * pe.width + pe.width ≤ pe.imageSize

/-- A descriptor with a number of thunks. The slots that have to be in the image are given by a relation to
that number. -/
structure DescriptorHolds (slots : Nat → Nat → Prop) (d : DelayDescriptor) (count : Nat) : Prop where
  attrs : d.attrs = 1 ∨ (d.attrs = 0 ∧ pe.arch = .x86)
  name : 0 < pe.relative d.attrs d.name ∧ pe.relative d.attrs d.name < pe.imageSize
  iat : 0 < pe.relative d.attrs d.iat ∧ pe.relative d.attrs d.iat ≤ pe.imageSize - pe.width
  names : 0 < pe.relative d.attrs d.names ∧ pe.relative d.attrs d.names ≤ pe.imageSize - pe.width
  thunks : ∀ k < count, ∃ value, value ≠ 0 ∧ pe.ThunkAt (pe.relative d.attrs d.names).toNat k value
  ends : pe.ThunkAt (pe.relative d.attrs d.names).toNat count 0
  inside : ∀ k, slots k count → pe.SlotAt (pe.relative d.attrs d.iat).toNat k

/-- The descriptors before the zero terminator, with their counts. -/
structure TableHolds (slots : Nat → Nat → Prop) (raw : List UInt8) (size : Nat) (counts : List Nat) : Prop where
  inside : 32 * (counts.length + 1) ≤ size
  descriptors : ∀ d count, counts[d]? = some count → (∃ w ∈ descriptorWords raw d, w ≠ 0) ∧
    pe.DescriptorHolds slots (descriptorOf (descriptorWords raw d)) count
  ends : ∀ w ∈ descriptorWords raw counts.length, w = 0

/-- A reading of the delay import directory. -/
def Reading (slots : Nat → Nat → Prop) (directories : List DataDirectory) (rva : Nat) (raw : List UInt8)
    (counts : List Nat) : Prop :=
  match directories[13]? with
  | none => rva = 0 ∧ raw = [] ∧ counts = []
  | some directory =>
    (directory.virtualAddress = 0 ∧ directory.size = 0 ∧ rva = 0 ∧ raw = [] ∧ counts = []) ∨
    (0 < directory.virtualAddress ∧ directory.virtualAddress + directory.size ≤ pe.imageSize ∧
      rva = directory.virtualAddress ∧ raw.length = directory.size ∧
      pe.getData directory.virtualAddress directory.size = some raw ∧
      pe.TableHolds slots raw directory.size counts)

variable {pe}

theorem readBytes_eq_ok {rva length : Nat} {raw : List UInt8} :
    pe.readBytes rva length = .ok raw ↔ pe.getData rva length = some raw ∧ raw.length = length := by
  unfold readBytes
  cases hdata : pe.getData rva length with
  | none => simp
  | some data =>
    by_cases hlen : data.length = length
    · simp only [ne_eq, hlen, not_true_eq_false, if_false, Except.ok.injEq, Option.some.injEq]
      constructor
      · rintro rfl
        exact ⟨rfl, hlen⟩
      · exact fun h => h.1
    · simp only [ne_eq, hlen, not_false_eq_true, if_true, reduceCtorEq, Option.some.injEq, false_iff, not_and]
      rintro rfl
      exact hlen

theorem ThunkAt.unique {names k value value' : Nat} (h : pe.ThunkAt names k value)
    (h' : pe.ThunkAt names k value') : value = value' := by
  obtain ⟨_, thunk, hread, _, rfl⟩ := h
  obtain ⟨_, thunk', hread', _, rfl⟩ := h'
  rw [hread] at hread'
  cases hread'
  rfl

theorem ThunkAt.readBytes {names k value : Nat} (h : pe.ThunkAt names k value) :
    ∃ thunk, pe.readBytes (names + k * pe.width) pe.width = .ok thunk ∧ fromBytes thunk = value := by
  obtain ⟨_, thunk, hread, hlen, hvalue⟩ := h
  exact ⟨thunk, readBytes_eq_ok.mpr ⟨hread, hlen⟩, hvalue⟩

/-- Thunks from an index on: nonzero ones up to the zero thunk at the count, and the slots of all of them. -/
structure ThunksFrom (pe : PeView) (iat names count n : Nat) : Prop where
  le : count ≤ n
  slots : ∀ k, count ≤ k → k ≤ n → pe.SlotAt iat k
  thunks : ∀ k, count ≤ k → k < n → ∃ value, value ≠ 0 ∧ pe.ThunkAt names k value
  ends : pe.ThunkAt names n 0

theorem ThunksFrom.first {iat names count n : Nat} (h : pe.ThunksFrom iat names count n) :
    ∃ value, pe.ThunkAt names count value ∧ (value = 0 ↔ count = n) := by
  rcases Nat.eq_or_lt_of_le h.le with rfl | hlt
  · exact ⟨0, h.ends, by simp⟩
  · obtain ⟨value, hne, hthunk⟩ := h.thunks count (Nat.le_refl _) hlt
    exact ⟨value, hthunk, iff_of_false hne (Nat.ne_of_lt hlt)⟩

/-- What the loop found when it returns a count. -/
theorem countThunks_eq_ok {iat names count n : Nat} :
    pe.countThunks iat names count = .ok n ↔ pe.ThunksFrom iat names count n := by
  fun_induction countThunks pe iat names count with
  | case1 count slot hout =>
    refine iff_of_false (fun h => by cases h) fun h => ?_
    obtain ⟨value, hthunk, _⟩ := h.first
    exact absurd hthunk.1 (Nat.not_le.mpr hout)
  | case2 count slot hin hout =>
    refine iff_of_false (fun h => by cases h) fun h => ?_
    exact absurd (h.slots count (Nat.le_refl _) h.le) (Nat.not_le.mpr hout)
  | case3 count slot hin hiat e hread =>
    refine iff_of_false (fun h => by cases h) fun h => ?_
    obtain ⟨value, hthunk, _⟩ := h.first
    obtain ⟨thunk, hok, _⟩ := hthunk.readBytes
    rw [hread] at hok
    cases hok
  | case4 count slot hin hiat thunk hread hzero =>
    obtain ⟨hdata, hlen⟩ := readBytes_eq_ok.mp hread
    have hthunk : pe.ThunkAt names count 0 := ⟨Nat.not_lt.mp hin, thunk, hdata, hlen, hzero⟩
    constructor
    · intro h
      cases h
      refine ⟨Nat.le_refl _, fun k hk hle => ?_, fun k hk hlt => absurd hlt (by omega), hthunk⟩
      cases Nat.le_antisymm hk hle
      exact Nat.not_lt.mp hiat
    · intro h
      obtain ⟨value, hfirst, hiff⟩ := h.first
      rw [hiff.mp (hfirst.unique hthunk)]
  | case5 count slot hin hiat thunk hread hzero ih =>
    obtain ⟨hdata, hlen⟩ := readBytes_eq_ok.mp hread
    have hthunk : pe.ThunkAt names count (fromBytes thunk) := ⟨Nat.not_lt.mp hin, thunk, hdata, hlen, rfl⟩
    rw [ih]
    constructor
    · intro h
      refine ⟨by have := h.le; omega, fun k hk hle => ?_, fun k hk hlt => ?_, h.ends⟩
      · rcases Nat.eq_or_lt_of_le hk with rfl | hlt
        · exact Nat.not_lt.mp hiat
        · exact h.slots k hlt hle
      · rcases Nat.eq_or_lt_of_le hk with rfl | hlt'
        · exact ⟨_, hzero, hthunk⟩
        · exact h.thunks k hlt' hlt
    · intro h
      obtain ⟨value, hfirst, hiff⟩ := h.first
      have hne : count ≠ n := fun heq => hzero ((hthunk.unique hfirst).trans (hiff.mpr heq))
      have hle := h.le
      exact ⟨by omega, fun k hk => h.slots k (by omega), fun k hk => h.thunks k (by omega), h.ends⟩

/-- Every slot up to the one of the zero thunk has to be in the image. -/
def slotsToEnd (k count : Nat) : Prop := k ≤ count

theorem countDescriptor_eq_ok {d : DelayDescriptor} {n : Nat} :
    pe.countDescriptor d = .ok n ↔ pe.DescriptorHolds slotsToEnd d n := by
  unfold countDescriptor
  by_cases hattrs : ¬(d.attrs = 0 ∨ d.attrs = 1) ∨ (pe.arch = .amd64 ∧ d.attrs ≠ 1)
  · rw [if_pos hattrs]
    refine iff_of_false (fun h => by cases h) fun h => ?_
    rcases h.attrs with hone | ⟨hzero, harch⟩
    · simp [hone] at hattrs
    · simp [hzero, harch] at hattrs
  · rw [if_neg hattrs]
    simp only
    by_cases hname : 0 < pe.relative d.attrs d.name ∧ pe.relative d.attrs d.name < pe.imageSize
    · rw [if_neg (not_not.mpr hname)]
      by_cases hiat : 0 < pe.relative d.attrs d.iat ∧ pe.relative d.attrs d.iat ≤ pe.imageSize - pe.width
      · rw [if_neg (not_not.mpr hiat)]
        by_cases hnames : 0 < pe.relative d.attrs d.names ∧
            pe.relative d.attrs d.names ≤ pe.imageSize - pe.width
        · rw [if_neg (not_not.mpr hnames), countThunks_eq_ok]
          constructor
          · intro h
            refine ⟨?_, hname, hiat, hnames, fun k hk => h.thunks k (Nat.zero_le _) hk, h.ends,
              fun k hk => h.slots k (Nat.zero_le _) hk⟩
            cases harch : pe.arch with
            | x86 =>
              simp only [harch] at hattrs
              rcases not_not.mp (not_or.mp hattrs).1 with hzero | hone
              · exact Or.inr ⟨hzero, rfl⟩
              · exact Or.inl hone
            | amd64 => exact Or.inl (not_not.mp fun hne => hattrs (Or.inr ⟨harch, hne⟩))
          · intro h
            exact ⟨Nat.zero_le _, fun k _ => h.inside k, fun k _ => h.thunks k, h.ends⟩
        · rw [if_pos hnames]
          exact iff_of_false (fun h => by cases h) fun h => hnames h.names
      · rw [if_pos hiat]
        exact iff_of_false (fun h => by cases h) fun h => hiat h.iat
    · rw [if_pos hname]
      exact iff_of_false (fun h => by cases h) fun h => hname h.name

theorem countDescriptors_eq_ok {raw : List UInt8} {left d : Nat} {counts : List Nat} :
    pe.countDescriptors raw left d = .ok counts ↔ counts.length < left ∧
      (∀ j count, counts[j]? = some count → (∃ w ∈ descriptorWords raw (d + j), w ≠ 0) ∧
        pe.DescriptorHolds slotsToEnd (descriptorOf (descriptorWords raw (d + j))) count) ∧
      ∀ w ∈ descriptorWords raw (d + counts.length), w = 0 := by
  induction left generalizing d counts with
  | zero => exact iff_of_false (fun h => by cases h) fun h => absurd h.1 (Nat.not_lt_zero _)
  | succ left ih =>
    rw [countDescriptors]
    by_cases hall : (descriptorWords raw d).all (· = 0) = true
    · have hzero : ∀ w ∈ descriptorWords raw d, w = 0 := by simpa using hall
      simp only [if_pos hall]
      constructor
      · intro h
        cases h
        exact ⟨Nat.succ_pos _, fun j count hget => (by cases hget), hzero⟩
      · rintro ⟨_, hholds, _⟩
        cases counts with
        | nil => rfl
        | cons count counts =>
          obtain ⟨⟨w, hw, hne⟩, _⟩ := hholds 0 count rfl
          exact absurd (hzero w hw) hne
    · have hsome : ∃ w ∈ descriptorWords raw d, w ≠ 0 := by simpa using hall
      have hshift : ∀ j, d + 1 + j = d + (j + 1) := fun j => by omega
      simp only [if_neg hall]
      constructor
      · intro h
        cases hcount : pe.countDescriptor (descriptorOf (descriptorWords raw d)) with
        | error e =>
          rw [hcount] at h
          cases h
        | ok count =>
          simp only [hcount] at h
          cases hrest : pe.countDescriptors raw left (d + 1) with
          | error e =>
            rw [hrest] at h
            cases h
          | ok rest =>
            rw [hrest] at h
            cases h
            obtain ⟨hlt, hholds, hends⟩ := ih.mp hrest
            refine ⟨Nat.succ_lt_succ hlt, fun j count' hget => ?_, ?_⟩
            · cases j with
              | zero =>
                cases hget
                exact ⟨hsome, countDescriptor_eq_ok.mp hcount⟩
              | succ j =>
                rw [← hshift]
                exact hholds j count' hget
            · rw [hshift] at hends
              exact hends
      · rintro ⟨hlt, hholds, hends⟩
        cases counts with
        | nil =>
          obtain ⟨w, hw, hne⟩ := hsome
          exact absurd (hends w hw) hne
        | cons count counts =>
          have hcount := countDescriptor_eq_ok.mpr (hholds 0 count rfl).2
          have hrest : pe.countDescriptors raw left (d + 1) = .ok counts := by
            refine ih.mpr ⟨Nat.lt_of_succ_lt_succ hlt, fun j count' hget => ?_, ?_⟩
            · rw [hshift]
              exact hholds (j + 1) count' hget
            · rw [hshift]
              exact hends
          rw [Nat.add_zero] at hcount
          simp only [hcount, hrest]
          rfl

/-- The directory is returned exactly as it reads. -/
theorem delayImportDirectory_eq_ok {directories : List DataDirectory} {rva : Nat} {raw : List UInt8}
    {counts : List Nat} : pe.delayImportDirectory directories = .ok (rva, raw, counts) ↔
      pe.Reading slotsToEnd directories rva raw counts := by
  unfold delayImportDirectory Reading
  cases directories[13]? with
  | none =>
    simp only [Except.ok.injEq, Prod.mk.injEq, eq_comm]
  | some directory =>
    simp only
    by_cases habsent : directory.virtualAddress = 0 ∧ directory.size = 0
    · rw [if_pos habsent]
      constructor
      · intro h
        cases h
        exact Or.inl ⟨habsent.1, habsent.2, rfl, rfl, rfl⟩
      · rintro (⟨_, _, rfl, rfl, rfl⟩ | ⟨hpos, _⟩)
        · rfl
        · exact absurd habsent.1 (Nat.ne_of_gt hpos)
    · rw [if_neg habsent]
      by_cases hbad : directory.virtualAddress = 0 ∨ directory.size < 32 ∨
          pe.imageSize < directory.virtualAddress + directory.size
      · rw [if_pos hbad]
        refine iff_of_false (fun h => by cases h) ?_
        rintro (⟨hrva, hsize, _⟩ | ⟨hpos, hle, _, _, _, htable⟩)
        · exact habsent ⟨hrva, hsize⟩
        · have hinside := htable.inside
          omega
      · rw [if_neg hbad]
        have hpos : 0 < directory.virtualAddress := by omega
        have hle : directory.virtualAddress + directory.size ≤ pe.imageSize := by omega
        constructor
        · intro h
          cases hread : pe.readBytes directory.virtualAddress directory.size with
          | error e =>
            rw [hread] at h
            cases h
          | ok data =>
            simp only [hread] at h
            cases hcounts : pe.countDescriptors data (directory.size / 32) 0 with
            | error e =>
              rw [hcounts] at h
              cases h
            | ok found =>
              rw [hcounts] at h
              cases h
              obtain ⟨hdata, hlen⟩ := readBytes_eq_ok.mp hread
              obtain ⟨hlt, hholds, hends⟩ := countDescriptors_eq_ok.mp hcounts
              simp only [Nat.zero_add] at hholds hends
              exact Or.inr ⟨hpos, hle, rfl, hlen, hdata, by omega, hholds, hends⟩
        · rintro (⟨hrva, _⟩ | ⟨_, _, rfl, hlen, hdata, htable⟩)
          · exact absurd hrva (Nat.ne_of_gt hpos)
          · have hinside := htable.inside
            have hcounts : pe.countDescriptors raw (directory.size / 32) 0 = .ok counts := by
              refine countDescriptors_eq_ok.mpr ⟨by omega, ?_, ?_⟩
              · simp only [Nat.zero_add]
                exact htable.descriptors
              · simp only [Nat.zero_add]
                exact htable.ends
            simp only [readBytes_eq_ok.mpr ⟨hdata, hlen⟩, hcounts]
            rfl

section Reads

variable {f : Nat → Nat → Option (List UInt8)}

theorem readBytes_congr (hsame : ∀ a n, a + n ≤ pe.imageSize → f a n = pe.getData a n) {rva length : Nat}
    (hle : rva + length ≤ pe.imageSize) :
    readBytes { pe with getData := f } rva length = pe.readBytes rva length := by
  unfold readBytes
  simp only [hsame rva length hle]

theorem countThunks_congr (hsame : ∀ a n, a + n ≤ pe.imageSize → f a n = pe.getData a n)
    (iat names count : Nat) :
    countThunks { pe with getData := f } iat names count = pe.countThunks iat names count := by
  have hread : ∀ k, names + k * pe.width + pe.width ≤ pe.imageSize →
      readBytes { pe with getData := f } (names + k * pe.width) pe.width =
        pe.readBytes (names + k * pe.width) pe.width := fun k hle => readBytes_congr hsame hle
  fun_induction countThunks pe iat names count with
  | case1 count slot hout =>
    rw [countThunks]
    exact if_pos hout
  | case2 count slot hin hout =>
    rw [countThunks]
    exact (if_neg hin).trans (if_pos hout)
  | case3 count slot hin hiat e herror =>
    rw [countThunks]
    refine (if_neg hin).trans ((if_neg hiat).trans ?_)
    have hfault := (hread count (Nat.not_lt.mp hin)).trans herror
    change (match readBytes { pe with getData := f } (names + count * pe.width) pe.width with
      | .error e => _
      | .ok thunk => _) = _
    rw [hfault]
  | case4 count slot hin hiat thunk hok hzero =>
    rw [countThunks]
    refine (if_neg hin).trans ((if_neg hiat).trans ?_)
    have hthunk := (hread count (Nat.not_lt.mp hin)).trans hok
    change (match readBytes { pe with getData := f } (names + count * pe.width) pe.width with
      | .error e => _
      | .ok thunk => _) = _
    rw [hthunk]
    exact if_pos hzero
  | case5 count slot hin hiat thunk hok hzero ih =>
    rw [countThunks]
    refine (if_neg hin).trans ((if_neg hiat).trans ?_)
    have hthunk := (hread count (Nat.not_lt.mp hin)).trans hok
    change (match readBytes { pe with getData := f } (names + count * pe.width) pe.width with
      | .error e => _
      | .ok thunk => _) = _
    rw [hthunk]
    exact (if_neg hzero).trans ih

theorem countDescriptors_congr (hsame : ∀ a n, a + n ≤ pe.imageSize → f a n = pe.getData a n)
    (raw : List UInt8) (left d : Nat) :
    countDescriptors { pe with getData := f } raw left d = pe.countDescriptors raw left d := by
  have hcount : ∀ e, countDescriptor { pe with getData := f } e = pe.countDescriptor e := by
    intro e
    unfold countDescriptor
    simp only [countThunks_congr hsame]
    rfl
  induction left generalizing d with
  | zero => rfl
  | succ left ih =>
    rw [countDescriptors, countDescriptors]
    simp only [hcount, ih]

/-- The checks read nothing outside the image. -/
theorem delayImportDirectory_congr (hsame : ∀ a n, a + n ≤ pe.imageSize → f a n = pe.getData a n)
    (directories : List DataDirectory) :
    delayImportDirectory { pe with getData := f } directories = pe.delayImportDirectory directories := by
  unfold delayImportDirectory
  cases directories[13]? with
  | none => rfl
  | some directory =>
    simp only [countDescriptors_congr hsame]
    by_cases habsent : directory.virtualAddress = 0 ∧ directory.size = 0
    · rw [if_pos habsent, if_pos habsent]
    · rw [if_neg habsent, if_neg habsent]
      by_cases hbad : directory.virtualAddress = 0 ∨ directory.size < 32 ∨
          pe.imageSize < directory.virtualAddress + directory.size
      · rw [if_pos hbad, if_pos hbad]
      · rw [if_neg hbad, if_neg hbad, readBytes_congr hsame (by omega)]

end Reads

/-- The law of the checks: the counts of the one reading of the table, an error when there is none, and no
read outside the image. -/
structure DelayLaw (pe : PeView) (slots : Nat → Nat → Prop) (directories : List DataDirectory) : Prop where
  returns : ∀ rva raw counts, pe.delayImportDirectory directories = .ok (rva, raw, counts) ↔
    pe.Reading slots directories rva raw counts
  raises : (∃ e, pe.delayImportDirectory directories = .error e) ↔
    ¬∃ rva raw counts, pe.Reading slots directories rva raw counts
  inside : ∀ f : Nat → Nat → Option (List UInt8), (∀ a n, a + n ≤ pe.imageSize → f a n = pe.getData a n) →
    delayImportDirectory { pe with getData := f } directories = pe.delayImportDirectory directories

theorem delayImportDirectory_law (pe : PeView) (directories : List DataDirectory) :
    pe.DelayLaw slotsToEnd directories where
  returns _ _ _ := delayImportDirectory_eq_ok
  raises := by
    constructor
    · rintro ⟨e, he⟩ ⟨rva, raw, counts, hreading⟩
      rw [delayImportDirectory_eq_ok.mpr hreading] at he
      cases he
    · intro hnone
      cases hresult : pe.delayImportDirectory directories with
      | error e => exact ⟨e, rfl⟩
      | ok r => exact absurd ⟨r.1, r.2.1, r.2.2, delayImportDirectory_eq_ok.mp hresult⟩ hnone
  inside _ hsame := delayImportDirectory_congr hsame directories

/-- The slots below the count. -/
def slotsBelow (k count : Nat) : Prop := k < count

/-- One descriptor at 0x10, its name at 0x58, its name table at 0x60 and its IAT in the last dword. -/
def lastSlotImage : List UInt8 :=
  List.replicate 16 0 ++ [1, 0, 0, 0, 0x58, 0, 0, 0, 0, 0, 0, 0, 0x7C, 0, 0, 0, 0x60, 0, 0, 0] ++
    List.replicate 44 0 ++ List.replicate 8 0 ++ [0x61, 0, 0, 0, 0, 0, 0, 0] ++ [0x70, 0, 0, 0, 0, 0, 0, 0] ++
    List.replicate 24 0

def lastSlotView : PeView where
  arch := .x86
  base := 0x400000
  imageSize := 0x80
  getData rva length := some ((lastSlotImage.drop rva).take length)
  maxImportNameLength := 0x200

def lastSlotDirectories : List DataDirectory := List.replicate 13 ⟨0, 0⟩ ++ [⟨0x10, 64⟩]

/-- The slot of the zero thunk has to be in the image too. -/
theorem delayImportDirectory_lastSlot : ¬lastSlotView.DelayLaw slotsBelow lastSlotDirectories := by
  intro h
  have hraises : lastSlotView.delayImportDirectory lastSlotDirectories = .error .outside := by
    decide +kernel
  refine h.raises.mp ⟨_, hraises⟩ ⟨0x10, (lastSlotImage.drop 0x10).take 64, [1], Or.inr ⟨?_, ?_, rfl, ?_, rfl, ?_⟩⟩
  · decide
  · decide
  · decide
  · refine ⟨by decide, ?_, by decide⟩
    intro d count hcount
    rcases d with _ | d
    · cases hcount
      refine ⟨by decide, by decide, by decide, by decide, by decide, ?_, ?_, ?_⟩
      · intro k hk
        have hzero : k = 0 := Nat.lt_one_iff.mp hk
        subst hzero
        exact ⟨0x70, by decide, by decide, _, rfl, by decide, by decide⟩
      · exact ⟨by decide, _, rfl, by decide, by decide⟩
      · intro k hk
        have hzero : k = 0 := Nat.lt_one_iff.mp hk
        subst hzero
        unfold SlotAt
        decide
    · cases hcount

end PeView

end Speakeasy
