import Speakeasy.ByteMemory
import Mathlib.Data.List.Lex
import Mathlib.Algebra.Order.Ring.Int

/-! A scan of two lists of fields, which stops at the first field that fails its check or that differs,
and the lexicographic order of the lists. -/

namespace FieldScans

variable {α : Type*} [LinearOrder α]

/-- The answer for the fields so far, and what the other fields make of it. -/
def scan (check : α → α → Bool) : Bool → List (α × α) → Bool
  | ok, [] => ok
  | _, (a, b) :: rest =>
    let ok := check a b
    if ok = false ∨ a ≠ b then ok else scan check ok rest

example : scan (fun a b : Nat => decide (b ≤ a)) true [(10, 6), (0, 1)] = true := by
  rw [scan]
  decide

variable {check : α → α → Bool} {ok : Bool} {a b : α} {rest : List (α × α)}

theorem scan_differ (h : a ≠ b) : scan check ok ((a, b) :: rest) = check a b := by
  simp [scan, h]

theorem scan_same (h : check a a = true) : scan check ok ((a, a) :: rest) = scan check true rest := by
  simp [scan, h]

/-- A check that a field fails against itself is decided by the first field. -/
theorem scan_strict (hirrefl : ∀ a, check a a = false) :
    scan check ok ((a, b) :: rest) = check a b := by
  by_cases h : a = b
  · subst h
    simp [scan, hirrefl]
  · exact scan_differ h

theorem scan_eq {fields : List (α × α)} :
    scan (fun a b => decide (a = b)) true fields = true ↔ fields.map Prod.fst = fields.map Prod.snd := by
  induction fields with
  | nil => simp [scan]
  | cons p rest ih =>
    obtain ⟨a, b⟩ := p
    by_cases h : a = b
    · subst h
      rw [scan_same (by simp), ih]
      simp
    · rw [scan_differ h]
      simp [h]

theorem cons_le_cons {s t : List α} : a :: s ≤ b :: t ↔ a < b ∨ a = b ∧ s ≤ t := by
  rw [← not_lt, List.cons_lt_cons_iff, ← not_lt]
  constructor
  · intro h
    rcases lt_trichotomy a b with hlt | heq | hgt
    · exact Or.inl hlt
    · exact Or.inr ⟨heq, fun hst => h (Or.inr ⟨heq.symm, hst⟩)⟩
    · exact absurd (Or.inl hgt) h
  · rintro (hlt | ⟨heq, hst⟩) (hgt | ⟨hsame, hts⟩)
    · exact lt_asymm hlt hgt
    · exact absurd hlt (by simp [hsame])
    · exact absurd hgt (by simp [heq])
    · exact hst hts

theorem scan_le {fields : List (α × α)} :
    scan (fun a b => decide (a ≤ b)) true fields = true ↔ fields.map Prod.fst ≤ fields.map Prod.snd := by
  induction fields with
  | nil => simp [scan]
  | cons p rest ih =>
    obtain ⟨a, b⟩ := p
    by_cases h : a = b
    · subst h
      rw [scan_same (by simp), ih, List.map_cons, List.map_cons, cons_le_cons]
      simp
    · rw [scan_differ h, List.map_cons, List.map_cons, cons_le_cons]
      simp [h, le_iff_lt_or_eq]

theorem scan_ge {fields : List (α × α)} :
    scan (fun a b => decide (b ≤ a)) true fields = true ↔ fields.map Prod.snd ≤ fields.map Prod.fst := by
  induction fields with
  | nil => simp [scan]
  | cons p rest ih =>
    obtain ⟨a, b⟩ := p
    by_cases h : a = b
    · subst h
      rw [scan_same (by simp), ih, List.map_cons, List.map_cons, cons_le_cons]
      simp
    · have h' : b ≠ a := fun heq => h heq.symm
      rw [scan_differ h, List.map_cons, List.map_cons, cons_le_cons]
      simp [h', le_iff_lt_or_eq]

end FieldScans

namespace Speakeasy

open FieldScans

def verMinorversion : Nat := 0x1
def verMajorversion : Nat := 0x2
def verBuildnumber : Nat := 0x4
def verPlatformid : Nat := 0x8
def verServicepackminor : Nat := 0x10
def verServicepackmajor : Nat := 0x20
def verProductType : Nat := 0x80
def verConditionMask : Nat := 0x7

def verPlatformWin32Nt : Nat := 2
def verNtWorkstation : Nat := 1

def errorBadArguments : Nat := 160
def errorOldWinVersion : Nat := 1150

inductive VerCondition
  | equal
  | greater
  | greaterEqual
  | less
  | lessEqual
deriving DecidableEq, Repr

namespace VerCondition

def value : VerCondition → Nat
  | .equal => 1
  | .greater => 2
  | .greaterEqual => 3
  | .less => 4
  | .lessEqual => 5

def compare : VerCondition → Int → Int → Bool
  | .equal, a, b => decide (a = b)
  | .greater, a, b => decide (b < a)
  | .greaterEqual, a, b => decide (b ≤ a)
  | .less, a, b => decide (a < b)
  | .lessEqual, a, b => decide (a ≤ b)

/-- The condition for whole versions, in lexicographic order. -/
def Relates : VerCondition → List Int → List Int → Prop
  | .equal, current, wanted => current = wanted
  | .greater, current, wanted => wanted < current
  | .greaterEqual, current, wanted => wanted ≤ current
  | .less, current, wanted => current < wanted
  | .lessEqual, current, wanted => current ≤ wanted

/-- A condition that equal versions do not meet. -/
def Strict (c : VerCondition) : Prop := c = .greater ∨ c = .less

instance (c : VerCondition) : Decidable c.Strict := inferInstanceAs (Decidable (_ ∨ _))

end VerCondition

/-- `VER_COMPARE`. No other condition holds. -/
def verCompare : Nat → Int → Int → Bool
  | 1 => VerCondition.equal.compare
  | 2 => VerCondition.greater.compare
  | 3 => VerCondition.greaterEqual.compare
  | 4 => VerCondition.less.compare
  | 5 => VerCondition.lessEqual.compare
  | _ => fun _ _ => false

/-- `SERVICE_PACK_BUILDS.get(build, 0)`. -/
def servicePack (build : Int) : Int :=
  if build = 6001 then 1 else if build = 6002 then 2 else if build = 7601 then 1 else 0

/-- The version in the configuration. -/
structure OsVersion where
  major : Option Int
  minor : Option Int
  build : Option Int
deriving DecidableEq, Repr

/-- The fields of OSVERSIONINFOEX that the function reads. -/
structure OsVersionInfo where
  major : Nat
  minor : Nat
  build : Nat
  platform : Nat
  spMajor : Nat
  spMinor : Nat
  product : Nat
deriving DecidableEq, Repr

def OsVersionInfo.read (m : ByteMemory) (vinfo cw : Nat) : OsVersionInfo where
  major := m.readInt (vinfo + 4) 4
  minor := m.readInt (vinfo + 8) 4
  build := m.readInt (vinfo + 12) 4
  platform := m.readInt (vinfo + 16) 4
  spMajor := m.readInt (vinfo + 20 + 128 * cw) 2
  spMinor := m.readInt (vinfo + 22 + 128 * cw) 2
  product := m.readInt (vinfo + 26 + 128 * cw) 1

/-- The condition of a field in the mask. -/
def fieldCondition (conMask bit : Nat) : Nat := conMask >>> (3 * bit.log2) &&& verConditionMask

/-- A field of the type mask with its current and its wanted value. -/
abbrev VersionField := Nat × Int × Int

def checkField (conMask : Nat) (f : VersionField) : Bool :=
  verCompare (fieldCondition conMask f.1) f.2.1 f.2.2

/-- The loop over the fields of the version, which a field that fails or differs ends. -/
def versionLoop (typeMask conMask : Nat) : Bool → List VersionField → Bool
  | ok, [] => ok
  | ok, f :: rest =>
    if typeMask &&& f.1 ≠ 0 then
      let ok := checkField conMask f
      if ok = false ∨ f.2.1 ≠ f.2.2 then ok else versionLoop typeMask conMask ok rest
    else versionLoop typeMask conMask ok rest

/-- The loop over the build, the platform and the product. -/
def otherLoop (typeMask conMask : Nat) : Bool → List VersionField → Bool
  | ok, [] => ok
  | ok, f :: rest =>
    let ok := if ok = true ∧ typeMask &&& f.1 ≠ 0 then checkField conMask f else ok
    otherLoop typeMask conMask ok rest

def versionFields (ver : OsVersion) (wanted : OsVersionInfo) : List VersionField :=
  [(verMajorversion, ver.major.getD 0, wanted.major), (verMinorversion, ver.minor.getD 0, wanted.minor),
    (verServicepackmajor, servicePack (ver.build.getD 0), wanted.spMajor),
    (verServicepackminor, 0, wanted.spMinor)]

def otherFields (ver : OsVersion) (wanted : OsVersionInfo) : List VersionField :=
  [(verBuildnumber, ver.build.getD 0, wanted.build), (verPlatformid, verPlatformWin32Nt, wanted.platform),
    (verProductType, verNtWorkstation, wanted.product)]

/-- The condition mask takes two slots of 4 bytes, or one of 8. -/
def conditionMask (ptrSize arg2 arg3 : Nat) : Nat := if ptrSize = 4 then arg3 <<< 32 ||| arg2 else arg2

/-- `VerifyVersionInfo`: the answer, and the last error that it sets. -/
def verifyVersionInfo (ver : OsVersion) (m : ByteMemory) (ptrSize cw vinfo typeMask arg2 arg3 : Nat) :
    Bool × Option Nat :=
  let conMask := conditionMask ptrSize arg2 arg3
  if typeMask = 0 ∨ conMask = 0 then (false, some errorBadArguments)
  else
    let wanted := OsVersionInfo.read m vinfo cw
    let ok := versionLoop typeMask conMask true (versionFields ver wanted)
    let ok := otherLoop typeMask conMask ok (otherFields ver wanted)
    if ok = false then (false, some errorOldWinVersion) else (true, none)

/-- The fields that the type mask selects. -/
def selected (typeMask : Nat) (fields : List VersionField) : List (Int × Int) :=
  (fields.filter fun f => decide (typeMask &&& f.1 ≠ 0)).map Prod.snd

def currentVersion (typeMask : Nat) (ver : OsVersion) (wanted : OsVersionInfo) : List Int :=
  (selected typeMask (versionFields ver wanted)).map Prod.fst

def wantedVersion (typeMask : Nat) (ver : OsVersion) (wanted : OsVersionInfo) : List Int :=
  (selected typeMask (versionFields ver wanted)).map Prod.snd

def versionMask : Nat := verMajorversion ||| verMinorversion ||| verServicepackmajor ||| verServicepackminor

/-- The type mask selects one or more of the four fields, and the condition is set for each of them. -/
structure SetFor (c : VerCondition) (typeMask conMask : Nat) : Prop where
  nonempty : typeMask ≠ 0
  fields : typeMask ||| versionMask = versionMask
  condition : ∀ bit ∈ [verMajorversion, verMinorversion, verServicepackmajor, verServicepackminor],
    typeMask &&& bit ≠ 0 → fieldCondition conMask bit = c.value

/-- The wanted version equals the current one in the first field, and still the versions meet a strict
condition. -/
def LaterFieldDecides (c : VerCondition) (current wanted : List Int) : Prop :=
  c.Strict ∧ current.head? = wanted.head? ∧ c.Relates current wanted

theorem verCompare_value (c : VerCondition) : verCompare c.value = c.compare := by
  cases c <;> rfl

theorem versionLoop_eq_scan {c : VerCondition} {typeMask conMask : Nat} {fields : List VersionField}
    (h : ∀ f ∈ fields, typeMask &&& f.1 ≠ 0 → fieldCondition conMask f.1 = c.value) (ok : Bool) :
    versionLoop typeMask conMask ok fields = scan c.compare ok (selected typeMask fields) := by
  induction fields generalizing ok with
  | nil => rfl
  | cons f rest ih =>
    have hrest := ih fun g hg => h g (List.mem_cons_of_mem _ hg)
    unfold versionLoop selected
    by_cases hbit : typeMask &&& f.1 ≠ 0
    · have hcheck : checkField conMask f = c.compare f.2.1 f.2.2 := by
        rw [checkField, h f List.mem_cons_self hbit, verCompare_value]
      rw [if_pos hbit, List.filter_cons_of_pos (by simpa using hbit), List.map_cons]
      simp only [scan, hcheck]
      split
      next => rfl
      next => exact hrest _
    · rw [if_neg hbit, List.filter_cons_of_neg (by simpa using hbit)]
      exact hrest ok

theorem otherLoop_skip {typeMask conMask : Nat} {fields : List VersionField}
    (h : ∀ f ∈ fields, typeMask &&& f.1 = 0) (ok : Bool) :
    otherLoop typeMask conMask ok fields = ok := by
  induction fields generalizing ok with
  | nil => rfl
  | cons f rest ih =>
    have hrest := ih fun g hg => h g (List.mem_cons_of_mem _ hg)
    unfold otherLoop
    simp only [h f List.mem_cons_self, ne_eq, not_true_eq_false, and_false, if_false]
    exact hrest ok

/-- The scan of a selection gives the lexicographic answer when no later field decides a strict
condition. -/
theorem scan_relates_iff (c : VerCondition) {fields : List (Int × Int)} (hne : fields ≠ []) :
    (scan c.compare true fields = true ↔ c.Relates (fields.map Prod.fst) (fields.map Prod.snd)) ↔
      ¬LaterFieldDecides c (fields.map Prod.fst) (fields.map Prod.snd) := by
  obtain ⟨⟨a, b⟩, rest, rfl⟩ := List.exists_cons_of_ne_nil hne
  cases c with
  | equal =>
    have hnot : ¬LaterFieldDecides .equal (((a, b) :: rest).map Prod.fst) (((a, b) :: rest).map Prod.snd) :=
      fun h => absurd h.1 (by decide)
    exact iff_of_true scan_eq hnot
  | greaterEqual =>
    have hnot : ¬LaterFieldDecides .greaterEqual (((a, b) :: rest).map Prod.fst)
        (((a, b) :: rest).map Prod.snd) := fun h => absurd h.1 (by decide)
    exact iff_of_true scan_ge hnot
  | lessEqual =>
    have hnot : ¬LaterFieldDecides .lessEqual (((a, b) :: rest).map Prod.fst)
        (((a, b) :: rest).map Prod.snd) := fun h => absurd h.1 (by decide)
    exact iff_of_true scan_le hnot
  | greater =>
    rw [@scan_strict _ _ VerCondition.greater.compare _ _ _ _ (by simp [VerCondition.compare])]
    simp only [VerCondition.compare, LaterFieldDecides, VerCondition.Strict, VerCondition.Relates,
      List.map_cons, List.cons_lt_cons_iff, List.head?_cons, Option.some.injEq, decide_eq_true_eq]
    by_cases h : a = b
    · subst h
      simp
    · have h' : b ≠ a := fun heq => h heq.symm
      simp [h, h']
  | less =>
    rw [@scan_strict _ _ VerCondition.less.compare _ _ _ _ (by simp [VerCondition.compare])]
    simp only [VerCondition.compare, LaterFieldDecides, VerCondition.Strict, VerCondition.Relates,
      List.map_cons, List.cons_lt_cons_iff, List.head?_cons, Option.some.injEq, decide_eq_true_eq]
    by_cases h : a = b
    · subst h
      simp
    · simp [h]

theorem typeMask_bits {typeMask : Nat} (h : typeMask ||| versionMask = versionMask) (hne : typeMask ≠ 0) :
    (∀ bit ∈ [verBuildnumber, verPlatformid, verProductType], typeMask &&& bit = 0) ∧
      ∃ bit ∈ [verMajorversion, verMinorversion, verServicepackmajor, verServicepackminor],
        typeMask &&& bit ≠ 0 := by
  have hall : ∀ t < 52, t ||| versionMask = versionMask → t ≠ 0 →
      (∀ bit ∈ [verBuildnumber, verPlatformid, verProductType], t &&& bit = 0) ∧
        ∃ bit ∈ [verMajorversion, verMinorversion, verServicepackmajor, verServicepackminor],
          t &&& bit ≠ 0 := by decide
  have hle : typeMask ≤ versionMask := h ▸ Nat.left_le_or
  exact hall typeMask (Nat.lt_succ_of_le hle) h hne

theorem selected_ne_nil {typeMask : Nat} {ver : OsVersion} {wanted : OsVersionInfo}
    (h : ∃ bit ∈ [verMajorversion, verMinorversion, verServicepackmajor, verServicepackminor],
      typeMask &&& bit ≠ 0) : selected typeMask (versionFields ver wanted) ≠ [] := by
  obtain ⟨bit, hbit, hmask⟩ := h
  have hmem : bit ∈ (versionFields ver wanted).map Prod.fst := hbit
  obtain ⟨f, hf, rfl⟩ := List.mem_map.mp hmem
  exact List.ne_nil_of_mem (List.mem_map_of_mem (List.mem_filter.mpr ⟨hf, decide_eq_true hmask⟩))

theorem SetFor.conMask_ne_zero {c : VerCondition} {typeMask conMask : Nat}
    (h : SetFor c typeMask conMask) : conMask ≠ 0 := by
  intro hzero
  obtain ⟨bit, hbit, hmask⟩ := (typeMask_bits h.fields h.nonempty).2
  have hcond := h.condition bit hbit hmask
  rw [hzero, fieldCondition, Nat.zero_shiftRight, Nat.zero_and] at hcond
  cases c <;> simp [VerCondition.value] at hcond

/-- The loops together are the scan of the selected fields. -/
theorem verifyVersionInfo_eq_scan {c : VerCondition} {ptrSize typeMask arg2 arg3 : Nat}
    (h : SetFor c typeMask (conditionMask ptrSize arg2 arg3)) (ver : OsVersion) (m : ByteMemory)
    (cw vinfo : Nat) :
    (verifyVersionInfo ver m ptrSize cw vinfo typeMask arg2 arg3).1 =
      scan c.compare true (selected typeMask (versionFields ver (OsVersionInfo.read m vinfo cw))) := by
  have hother : ∀ f ∈ otherFields ver (OsVersionInfo.read m vinfo cw), typeMask &&& f.1 = 0 := by
    intro f hf
    exact (typeMask_bits h.fields h.nonempty).1 f.1 (List.mem_map_of_mem (f := Prod.fst) hf)
  have hversion : ∀ f ∈ versionFields ver (OsVersionInfo.read m vinfo cw), typeMask &&& f.1 ≠ 0 →
      fieldCondition (conditionMask ptrSize arg2 arg3) f.1 = c.value :=
    fun f hf => h.condition f.1 (List.mem_map_of_mem (f := Prod.fst) hf)
  have hargs : ¬(typeMask = 0 ∨ conditionMask ptrSize arg2 arg3 = 0) :=
    not_or.mpr ⟨h.nonempty, h.conMask_ne_zero⟩
  unfold verifyVersionInfo
  simp only [if_neg hargs, otherLoop_skip hother, versionLoop_eq_scan hversion]
  cases scan c.compare true (selected typeMask (versionFields ver (OsVersionInfo.read m vinfo cw))) <;> rfl

theorem verifyVersionInfo_relates_iff (c : VerCondition) (ver : OsVersion) (m : ByteMemory)
    (ptrSize cw vinfo typeMask arg2 arg3 : Nat)
    (h : SetFor c typeMask (conditionMask ptrSize arg2 arg3)) :
    ((verifyVersionInfo ver m ptrSize cw vinfo typeMask arg2 arg3).1 = true ↔
      c.Relates (currentVersion typeMask ver (OsVersionInfo.read m vinfo cw))
        (wantedVersion typeMask ver (OsVersionInfo.read m vinfo cw))) ↔
      ¬LaterFieldDecides c (currentVersion typeMask ver (OsVersionInfo.read m vinfo cw))
        (wantedVersion typeMask ver (OsVersionInfo.read m vinfo cw)) := by
  have hne := @selected_ne_nil _ ver (OsVersionInfo.read m vinfo cw)
    (typeMask_bits h.fields h.nonempty).2
  rw [verifyVersionInfo_eq_scan h ver m cw vinfo]
  exact scan_relates_iff c hne

/-- A program that asks for 6.0 at the address 0. -/
def versionSix : ByteMemory := fun a => if a = 4 then 6 else 0

theorem setFor_greater : SetFor .greater (verMajorversion ||| verMinorversion) (conditionMask 4 18 0) where
  nonempty := by decide
  fields := by decide
  condition := by decide

theorem verifyVersionInfo_relates_iff_six :
    SetFor .greater (verMajorversion ||| verMinorversion) (conditionMask 4 18 0) ∧
      (((verifyVersionInfo ⟨some 6, some 1, some 7601⟩ versionSix 4 1 0
          (verMajorversion ||| verMinorversion) 18 0).1 = true ↔
        VerCondition.greater.Relates
          (currentVersion (verMajorversion ||| verMinorversion) ⟨some 6, some 1, some 7601⟩
            (OsVersionInfo.read versionSix 0 1))
          (wantedVersion (verMajorversion ||| verMinorversion) ⟨some 6, some 1, some 7601⟩
            (OsVersionInfo.read versionSix 0 1))) ↔
        ¬LaterFieldDecides .greater
          (currentVersion (verMajorversion ||| verMinorversion) ⟨some 6, some 1, some 7601⟩
            (OsVersionInfo.read versionSix 0 1))
          (wantedVersion (verMajorversion ||| verMinorversion) ⟨some 6, some 1, some 7601⟩
            (OsVersionInfo.read versionSix 0 1))) :=
  ⟨setFor_greater, verifyVersionInfo_relates_iff .greater ⟨some 6, some 1, some 7601⟩ versionSix 4 1 0
    (verMajorversion ||| verMinorversion) 18 0 setFor_greater⟩

/-- Windows 6.1 is later than 6.0, but the equal major versions decide. -/
theorem verifyVersionInfo_not_greater :
    SetFor .greater (verMajorversion ||| verMinorversion) (conditionMask 4 18 0) ∧
      (verifyVersionInfo ⟨some 6, some 1, some 7601⟩ versionSix 4 1 0
        (verMajorversion ||| verMinorversion) 18 0).1 = false ∧
      VerCondition.greater.Relates
        (currentVersion (verMajorversion ||| verMinorversion) ⟨some 6, some 1, some 7601⟩
          (OsVersionInfo.read versionSix 0 1))
        (wantedVersion (verMajorversion ||| verMinorversion) ⟨some 6, some 1, some 7601⟩
          (OsVersionInfo.read versionSix 0 1)) := by
  refine ⟨setFor_greater, by decide, ?_⟩
  show ([6, 0] : List Int) < [6, 1]
  decide

end Speakeasy
