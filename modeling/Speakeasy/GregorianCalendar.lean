import Mathlib.Data.List.Lex
import Mathlib.Order.Basic

/-! The proleptic Gregorian calendar: its dates, and the number of each day. -/

namespace GregorianCalendar

def isLeap (year : Nat) : Bool := year % 4 = 0 && (year % 100 ≠ 0 || year % 400 = 0)

def daysInYear (leap : Bool) : Nat := if leap then 366 else 365

def daysInMonth (leap : Bool) (month : Nat) : Nat :=
  if month = 2 then (if leap then 29 else 28)
  else if month = 4 ∨ month = 6 ∨ month = 9 ∨ month = 11 then 30 else 31

/-- The days of the years before a year, from the year 1 on. -/
def daysBeforeYear (year : Nat) : Nat :=
  (year - 1) * 365 + (year - 1) / 4 - (year - 1) / 100 + (year - 1) / 400

/-- The days of the months before a month of a year. -/
def daysBeforeMonth (leap : Bool) (month : Nat) : Nat :=
  [0, 0, 31, 59, 90, 120, 151, 181, 212, 243, 273, 304, 334].getD month 0 + (if 2 < month ∧ leap then 1 else 0)

/-- A date of the calendar. -/
structure CalendarDate where
  year : Nat
  month : Nat
  day : Nat
  year_pos : 0 < year
  month_pos : 0 < month
  month_le : month ≤ 12
  day_pos : 0 < day
  day_le : day ≤ daysInMonth (isLeap year) month
deriving DecidableEq, Repr

theorem isLeap_iff {year : Nat} : isLeap year = true ↔ year % 4 = 0 ∧ (year % 100 ≠ 0 ∨ year % 400 = 0) := by
  simp [isLeap]

/-- The digits of a year in cycles of 400, 100 and 4 years. -/
structure YearDigits (year a b c d : Nat) : Prop where
  eq : year = 400 * a + 100 * b + 4 * c + d + 1
  century : b ≤ 3
  olympiad : c ≤ 24
  rest : d ≤ 3

theorem yearDigits {year : Nat} (h : 0 < year) : ∃ a b c d, YearDigits year a b c d :=
  ⟨(year - 1) / 400, (year - 1) % 400 / 100, (year - 1) % 400 % 100 / 4, (year - 1) % 400 % 100 % 4,
    by omega, by omega, by omega, by omega⟩

namespace YearDigits

variable {year a b c d : Nat}

theorem daysBeforeYear_eq (h : YearDigits year a b c d) :
    daysBeforeYear year = 146097 * a + 36524 * b + 1461 * c + 365 * d := by
  obtain ⟨rfl, hb, hc, hd⟩ := h
  have h4 : (400 * a + 100 * b + 4 * c + d) / 4 = 100 * a + 25 * b + c := by omega
  have h100 : (400 * a + 100 * b + 4 * c + d) / 100 = 4 * a + b := by omega
  have h400 : (400 * a + 100 * b + 4 * c + d) / 400 = a := by omega
  unfold daysBeforeYear
  rw [Nat.add_sub_cancel, h4, h100, h400]
  omega

theorem isLeap_eq (h : YearDigits year a b c d) : isLeap year = true ↔ d = 3 ∧ (c ≠ 24 ∨ b = 3) := by
  obtain ⟨rfl, hb, hc, hd⟩ := h
  have h4 : (400 * a + 100 * b + 4 * c + d + 1) % 4 = 0 ↔ d = 3 := by omega
  have h100 : (400 * a + 100 * b + 4 * c + d + 1) % 100 = 0 ↔ c = 24 ∧ d = 3 := by omega
  have h400 : (400 * a + 100 * b + 4 * c + d + 1) % 400 = 0 ↔ b = 3 ∧ c = 24 ∧ d = 3 := by omega
  rw [isLeap_iff, h4, ne_eq, h100, h400]
  omega

end YearDigits

theorem daysBeforeYear_succ {year : Nat} (h : 0 < year) :
    daysBeforeYear (year + 1) = daysBeforeYear year + daysInYear (isLeap year) := by
  obtain ⟨a, b, c, d, hdigits⟩ := yearDigits h
  have hleap := hdigits.isLeap_eq
  have hbefore := hdigits.daysBeforeYear_eq
  obtain ⟨heq, hb, hc, hd⟩ := hdigits
  have hnext : ∃ a' b' c' d', YearDigits (year + 1) a' b' c' d' ∧
      146097 * a' + 36524 * b' + 1461 * c' + 365 * d' =
        146097 * a + 36524 * b + 1461 * c + 365 * d + if d = 3 ∧ (c ≠ 24 ∨ b = 3) then 366 else 365 := by
    by_cases hd3 : d = 3
    · by_cases hc24 : c = 24
      · by_cases hb3 : b = 3
        · exact ⟨a + 1, 0, 0, 0, ⟨by omega, by omega, by omega, by omega⟩, by rw [if_pos (by omega)]; omega⟩
        · exact ⟨a, b + 1, 0, 0, ⟨by omega, by omega, by omega, by omega⟩, by rw [if_neg (by omega)]; omega⟩
      · exact ⟨a, b, c + 1, 0, ⟨by omega, by omega, by omega, by omega⟩, by rw [if_pos (by omega)]; omega⟩
    · exact ⟨a, b, c, d + 1, ⟨by omega, by omega, by omega, by omega⟩, by rw [if_neg (by omega)]; omega⟩
  obtain ⟨a', b', c', d', hdigits', hsum⟩ := hnext
  rw [hdigits'.daysBeforeYear_eq, hsum, hbefore]
  unfold daysInYear
  simp only [hleap]

theorem daysBeforeYear_mono {year later : Nat} (h : 0 < year) (hle : year ≤ later) :
    daysBeforeYear year ≤ daysBeforeYear later := by
  induction later, hle using Nat.le_induction with
  | base => exact Nat.le_refl _
  | succ later hle ih =>
    rw [daysBeforeYear_succ (by omega)]
    omega

theorem daysBeforeMonth_succ : ∀ leap : Bool, ∀ month < 12, 0 < month →
    daysBeforeMonth leap (month + 1) = daysBeforeMonth leap month + daysInMonth leap month := by decide

theorem daysBeforeMonth_year : ∀ leap : Bool, daysBeforeMonth leap 12 + daysInMonth leap 12 = daysInYear leap := by
  decide

theorem daysBeforeMonth_later : ∀ leap : Bool, ∀ later < 13, ∀ month < later, 0 < month →
    daysBeforeMonth leap month + daysInMonth leap month ≤ daysBeforeMonth leap later := by decide

theorem daysBeforeMonth_le : ∀ leap : Bool, ∀ month < 13, 0 < month →
    daysBeforeMonth leap month + daysInMonth leap month ≤ daysInYear leap := by decide

namespace CalendarDate

variable (d e : CalendarDate)

/-- The number of the day, where the first day of the year 1 is day 1. -/
def ordinal : Nat := daysBeforeYear d.year + daysBeforeMonth (isLeap d.year) d.month + d.day

theorem ext_fields {d e : CalendarDate} (hy : d.year = e.year) (hm : d.month = e.month) (hd : d.day = e.day) : d = e := by
  cases d
  cases e
  subst hy hm hd
  rfl

/-- The date as a key of the lexicographic order. -/
def key : List Nat := [d.year, d.month, d.day]

theorem ordinal_pos : 0 < d.ordinal := by
  have := d.day_pos
  unfold ordinal
  omega

theorem ordinal_le_year : d.ordinal ≤ daysBeforeYear d.year + daysInYear (isLeap d.year) := by
  have hmonth := daysBeforeMonth_le (isLeap d.year) d.month (by have := d.month_le; omega) d.month_pos
  have := d.day_le
  unfold ordinal
  omega

variable {d e}

theorem ordinal_lt_of_key (h : d.key < e.key) : d.ordinal < e.ordinal := by
  unfold key at h
  rcases List.cons_lt_cons_iff.mp h with hyear | ⟨hyear, hrest⟩
  · have hle := d.ordinal_le_year
    rw [← daysBeforeYear_succ d.year_pos] at hle
    have hmono : daysBeforeYear (d.year + 1) ≤ daysBeforeYear e.year :=
      daysBeforeYear_mono (Nat.zero_lt_succ d.year) hyear
    have hpos := e.day_pos
    unfold ordinal at hle ⊢
    omega
  · rcases List.cons_lt_cons_iff.mp hrest with hmonth | ⟨hmonth, hday⟩
    · have hlater := daysBeforeMonth_later (isLeap e.year) e.month (by have := e.month_le; omega) d.month hmonth
        d.month_pos
      have hle := d.day_le
      have hpos := e.day_pos
      unfold ordinal
      rw [hyear] at hle ⊢
      omega
    · have hlt : d.day < e.day := by
        rcases List.cons_lt_cons_iff.mp hday with hlt | ⟨-, hnil⟩
        · exact hlt
        · cases hnil
      unfold ordinal
      rw [hyear, hmonth]
      omega

theorem ordinal_lt_iff : d.ordinal < e.ordinal ↔ d.key < e.key := by
  constructor
  · intro h
    rcases lt_trichotomy d.key e.key with hlt | heq | hgt
    · exact hlt
    · have hsame : d = e := by
        unfold key at heq
        simp only [List.cons.injEq, and_true] at heq
        exact ext_fields heq.1 heq.2.1 heq.2.2
      rw [hsame] at h
      exact absurd h (Nat.lt_irrefl _)
    · exact absurd (ordinal_lt_of_key hgt) (by omega)
  · exact ordinal_lt_of_key

theorem ordinal_injective (h : d.ordinal = e.ordinal) : d = e := by
  rcases lt_trichotomy d.key e.key with hlt | heq | hgt
  · have := ordinal_lt_of_key hlt
    omega
  · unfold key at heq
    simp only [List.cons.injEq, and_true] at heq
    exact ext_fields heq.1 heq.2.1 heq.2.2
  · have := ordinal_lt_of_key hgt
    omega

/-- The next day. -/
def next (d : CalendarDate) : CalendarDate :=
  if hday : d.day < daysInMonth (isLeap d.year) d.month then
    { d with day := d.day + 1, day_pos := Nat.succ_pos _, day_le := hday }
  else if hmonth : d.month < 12 then
    ⟨d.year, d.month + 1, 1, d.year_pos, Nat.succ_pos _, hmonth, Nat.one_pos, by
      unfold daysInMonth
      split
      · split <;> decide
      · split <;> decide⟩
  else ⟨d.year + 1, 1, 1, Nat.succ_pos _, Nat.one_pos, by decide, Nat.one_pos, show 1 ≤ 31 by decide⟩

/-- The ordinals count the days one by one. -/
theorem ordinal_next (d : CalendarDate) : d.next.ordinal = d.ordinal + 1 := by
  have hle := d.day_le
  have hmonths := d.month_le
  unfold next
  split
  next => rfl
  next hday =>
    split
    next hmonth =>
      have hsucc := daysBeforeMonth_succ (isLeap d.year) d.month hmonth d.month_pos
      unfold ordinal
      dsimp only
      omega
    next hmonth =>
      have htwelve : d.month = 12 := by omega
      have hyear := daysBeforeYear_succ d.year_pos
      have hlast := daysBeforeMonth_year (isLeap d.year)
      have hfirst : ∀ leap : Bool, daysBeforeMonth leap 1 = 0 := by decide
      rw [htwelve] at hday hle
      unfold ordinal
      dsimp only
      rw [htwelve, hyear, hfirst]
      omega

/-- The day of the week, where Sunday is 0. -/
def weekday (d : CalendarDate) : Nat := d.ordinal % 7

theorem weekday_next (d : CalendarDate) : d.next.weekday = (d.weekday + 1) % 7 := by
  unfold weekday
  rw [ordinal_next]
  omega

end CalendarDate

section OfOrdinal

/-- The month and the day of a day of a year, which counts from 0. -/
def monthDay (leap : Bool) (n : Nat) : Nat × Nat :=
  let month := (n + 50) / 32
  let preceding := daysBeforeMonth leap month
  if n < preceding then (month - 1, n - (preceding - daysInMonth leap (month - 1)) + 1)
  else (month, n - preceding + 1)

theorem monthDay_spec : ∀ leap : Bool, ∀ n < daysInYear leap, 0 < (monthDay leap n).1 ∧ (monthDay leap n).1 ≤ 12 ∧
    0 < (monthDay leap n).2 ∧ (monthDay leap n).2 ≤ daysInMonth leap (monthDay leap n).1 ∧
    daysBeforeMonth leap (monthDay leap n).1 + (monthDay leap n).2 = n + 1 := by decide +kernel

/-- The year of a day and the days before it in the year, where the days count from 0. -/
def yearDay (n : Nat) : Nat × Nat :=
  let n400 := n / 146097
  let n := n % 146097
  let n100 := n / 36524
  let n := n % 36524
  let n4 := n / 1461
  let n := n % 1461
  let n1 := n / 365
  let n := n % 365
  let year := n400 * 400 + 1 + (n100 * 100 + n4 * 4 + n1)
  if n1 = 4 ∨ n100 = 4 then (year - 1, 365) else (year, n)

theorem yearDay_spec (n : Nat) : 0 < (yearDay n).1 ∧ daysBeforeYear (yearDay n).1 + (yearDay n).2 = n ∧
    (yearDay n).2 < daysInYear (isLeap (yearDay n).1) := by
  obtain ⟨a, ha⟩ : ∃ a, a = n / 146097 := ⟨_, rfl⟩
  obtain ⟨b, hb⟩ : ∃ b, b = n % 146097 / 36524 := ⟨_, rfl⟩
  obtain ⟨c, hc⟩ : ∃ c, c = n % 146097 % 36524 / 1461 := ⟨_, rfl⟩
  obtain ⟨d, hd⟩ : ∃ d, d = n % 146097 % 36524 % 1461 / 365 := ⟨_, rfl⟩
  obtain ⟨r, hr⟩ : ∃ r, r = n % 146097 % 36524 % 1461 % 365 := ⟨_, rfl⟩
  have hsum : n = 146097 * a + 36524 * b + 1461 * c + 365 * d + r := by omega
  have hday : yearDay n = if d = 4 ∨ b = 4 then (a * 400 + 1 + (b * 100 + c * 4 + d) - 1, 365)
      else (a * 400 + 1 + (b * 100 + c * 4 + d), r) := by
    rw [ha, hb, hc, hd, hr]
    rfl
  rw [hday]
  by_cases hlast : d = 4 ∨ b = 4
  · -- the last day of a leap year is no day of the cycle it would start
    have hdigits : ∃ a' b' c' d', YearDigits (a * 400 + 1 + (b * 100 + c * 4 + d) - 1) a' b' c' d' ∧
        d' = 3 ∧ (c' ≠ 24 ∨ b' = 3) ∧ 146097 * a' + 36524 * b' + 1461 * c' + 365 * d' + 365 = n := by
      by_cases hb4 : b = 4
      · exact ⟨a, 3, 24, 3, ⟨by omega, by omega, by omega, by omega⟩, rfl, Or.inr rfl, by omega⟩
      · exact ⟨a, b, c, 3, ⟨by omega, by omega, by omega, by omega⟩, rfl, by omega, by omega⟩
    obtain ⟨a', b', c', d', hdigits, hd3, hleap, hn⟩ := hdigits
    rw [if_pos hlast]
    dsimp only
    rw [hdigits.daysBeforeYear_eq, hdigits.isLeap_eq.mpr ⟨hd3, hleap⟩]
    have heq := hdigits.eq
    exact ⟨by omega, hn, by decide⟩
  · have hdigits : YearDigits (a * 400 + 1 + (b * 100 + c * 4 + d)) a b c d :=
      ⟨by omega, by omega, by omega, by omega⟩
    rw [if_neg hlast]
    dsimp only
    rw [hdigits.daysBeforeYear_eq]
    refine ⟨by omega, hsum.symm, ?_⟩
    unfold daysInYear
    split <;> omega

/-- The date of an ordinal. -/
def ofOrdinal (n : Nat) : CalendarDate :=
  let year := (yearDay (n - 1)).1
  let md := monthDay (isLeap year) (yearDay (n - 1)).2
  have hspec := monthDay_spec (isLeap year) _ (yearDay_spec (n - 1)).2.2
  ⟨year, md.1, md.2, (yearDay_spec (n - 1)).1, hspec.1, hspec.2.1, hspec.2.2.1, hspec.2.2.2.1⟩

theorem ordinal_ofOrdinal {n : Nat} (h : 0 < n) : (ofOrdinal n).ordinal = n := by
  obtain ⟨-, hyear, hlt⟩ := yearDay_spec (n - 1)
  obtain ⟨-, -, -, -, hmonth⟩ := monthDay_spec (isLeap (yearDay (n - 1)).1) _ hlt
  have hsplit : (ofOrdinal n).ordinal = daysBeforeYear (yearDay (n - 1)).1 +
      daysBeforeMonth (isLeap (yearDay (n - 1)).1) (monthDay (isLeap (yearDay (n - 1)).1) (yearDay (n - 1)).2).1 +
      (monthDay (isLeap (yearDay (n - 1)).1) (yearDay (n - 1)).2).2 := rfl
  rw [hsplit]
  omega

theorem ofOrdinal_ordinal (d : CalendarDate) : ofOrdinal d.ordinal = d :=
  CalendarDate.ordinal_injective (ordinal_ofOrdinal d.ordinal_pos)

end OfOrdinal

end GregorianCalendar
