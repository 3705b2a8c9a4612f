import Speakeasy.GregorianCalendar
import Mathlib.Data.List.Basic
import Mathlib.Algebra.Order.Ring.Nat

namespace Speakeasy

open GregorianCalendar

/-- A `datetime` in UTC. -/
structure Datetime where
  date : CalendarDate
  hour : Nat
  minute : Nat
  second : Nat
  microsecond : Nat
  year_le : date.year ≤ 9999
  hour_lt : hour < 24
  minute_lt : minute < 60
  second_lt : second < 60
  microsecond_lt : microsecond < 1000000
deriving DecidableEq, Repr

structure FileTime where
  dwLowDateTime : UInt32
  dwHighDateTime : UInt32
deriving DecidableEq, Repr

structure SystemTime where
  wYear : Nat
  wMonth : Nat
  wDayOfWeek : Nat
  wDay : Nat
  wHour : Nat
  wMinute : Nat
  wSecond : Nat
  wMilliseconds : Nat
deriving DecidableEq, Repr

def FileTime.quad (ft : FileTime) : Nat := (ft.dwHighDateTime.toNat <<< 32) ||| ft.dwLowDateTime.toNat

def FileTime.ofTimestamp (timestamp : Nat) : FileTime where
  dwLowDateTime := UInt32.ofNat (timestamp &&& 0xFFFFFFFF)
  dwHighDateTime := UInt32.ofNat (timestamp >>> 32)

namespace Datetime

/-- `datetime.datetime(…)`; none is a ValueError. -/
def make (year month day hour minute second microsecond : Nat) : Option Datetime :=
  if h : (0 < year ∧ year ≤ 9999) ∧ (0 < month ∧ month ≤ 12) ∧ (0 < day ∧ day ≤ daysInMonth (isLeap year) month) ∧
      hour < 24 ∧ minute < 60 ∧ second < 60 ∧ microsecond < 1000000 then
    some
      { date := ⟨year, month, day, h.1.1, h.2.1.1, h.2.1.2, h.2.2.1.1, h.2.2.1.2⟩
        hour := hour
        minute := minute
        second := second
        microsecond := microsecond
        year_le := h.1.2
        hour_lt := h.2.2.2.1
        minute_lt := h.2.2.2.2.1
        second_lt := h.2.2.2.2.2.1
        microsecond_lt := h.2.2.2.2.2.2 }
  else none

/-- The microseconds from the day 0 on. -/
def microseconds (dt : Datetime) : Nat :=
  (((dt.date.ordinal * 24 + dt.hour) * 60 + dt.minute) * 60 + dt.second) * 1000000 + dt.microsecond

/-- The time at some microseconds; none is an OverflowError. -/
def ofMicroseconds (t : Nat) : Option Datetime :=
  let date := ofOrdinal (t / 86400000000)
  if h : date.year ≤ 9999 then
    some
      { date := date
        hour := t / 3600000000 % 24
        minute := t / 60000000 % 60
        second := t / 1000000 % 60
        microsecond := t % 1000000
        year_le := h
        hour_lt := Nat.mod_lt _ (by decide)
        minute_lt := Nat.mod_lt _ (by decide)
        second_lt := Nat.mod_lt _ (by decide)
        microsecond_lt := Nat.mod_lt _ (by decide) }
  else none

/-- `isoweekday`, where Monday is 1 and Sunday is 7. -/
def isoweekday (dt : Datetime) : Nat := if dt.date.ordinal % 7 = 0 then 7 else dt.date.ordinal % 7

end Datetime

/-- The microseconds of `FILETIME_EPOCH`, the first day of 1601. -/
def filetimeEpoch : Nat := 584389 * 86400000000

def getFiletime (when : Datetime) : Int := ((when.microseconds : Int) - filetimeEpoch) * 10

def getDatetimeFromFiletime (filetime : Nat) : Option Datetime :=
  Datetime.ofMicroseconds (filetimeEpoch + filetime / 10)

/-- None is an OverflowError. -/
def getSystemTimeStruct (quad : Nat) : Option SystemTime :=
  (getDatetimeFromFiletime quad).map fun dt =>
    { wYear := dt.date.year
      wMonth := dt.date.month
      wDayOfWeek := dt.isoweekday % 7
      wDay := dt.date.day
      wHour := dt.hour
      wMinute := dt.minute
      wSecond := dt.second
      wMilliseconds := quad / 10000 % 1000 }

def SystemTime.datetime (st : SystemTime) : Option Datetime :=
  Datetime.make st.wYear st.wMonth st.wDay st.wHour st.wMinute st.wSecond (st.wMilliseconds * 1000)

/-- The SYSTEMTIME that is written; none is a return of 0. -/
def shiftSystemTime (bias : Int) (st : SystemTime) (sign : Int) : Option SystemTime :=
  match st.datetime with
  | none => none
  | some dt =>
    let quad := getFiletime dt + sign * bias * 60 * 10000000
    if 0 ≤ quad then getSystemTimeStruct quad.toNat else none

def systemTimeToTzSpecificLocalTime (bias : Int) (universalTime : SystemTime) : Option SystemTime :=
  shiftSystemTime bias universalTime (-1)

def tzSpecificLocalTimeToSystemTime (bias : Int) (localTime : SystemTime) : Option SystemTime :=
  shiftSystemTime bias localTime 1

/-- The return value, and the SYSTEMTIME that is written. -/
def fileTimeToSystemTime (ft : FileTime) (lpSystemTime : Nat) : Bool × Option SystemTime :=
  match getSystemTimeStruct ft.quad with
  | some st => (true, if lpSystemTime ≠ 0 then some st else none)
  | none => (true, none)

/-- The return value, and the FILETIME that is written. -/
def systemTimeToFileTime (st : SystemTime) : Bool × Option FileTime :=
  match st.datetime with
  | some dt => if dt.date.year < 1601 then (false, none) else (true, some (FileTime.ofTimestamp (getFiletime dt).toNat))
  | none => (false, none)

/-- The fields by their weight. -/
def SystemTime.key (st : SystemTime) : List Nat :=
  [st.wYear, st.wMonth, st.wDay, st.wHour, st.wMinute, st.wSecond, st.wMilliseconds]

/-- A date of the calendar with its day of the week, and a time of the day. -/
structure SystemTime.Valid (st : SystemTime) : Prop where
  date : ∃ d : CalendarDate, d.year = st.wYear ∧ d.month = st.wMonth ∧ d.day = st.wDay ∧ d.weekday = st.wDayOfWeek
  hour : st.wHour < 24
  minute : st.wMinute < 60
  second : st.wSecond < 60
  milliseconds : st.wMilliseconds < 1000

namespace Datetime

variable {dt dt' : Datetime} {t : Nat}

theorem ext_fields (hdate : dt.date = dt'.date) (hhour : dt.hour = dt'.hour) (hminute : dt.minute = dt'.minute)
    (hsecond : dt.second = dt'.second) (hmicrosecond : dt.microsecond = dt'.microsecond) : dt = dt' := by
  cases dt
  cases dt'
  subst hdate hhour hminute hsecond hmicrosecond
  rfl

/-- The fields of a time are the digits of its microseconds. -/
theorem microseconds_digits (dt : Datetime) : dt.microseconds / 86400000000 = dt.date.ordinal ∧
    dt.microseconds / 3600000000 % 24 = dt.hour ∧ dt.microseconds / 60000000 % 60 = dt.minute ∧
    dt.microseconds / 1000000 % 60 = dt.second ∧ dt.microseconds % 1000000 = dt.microsecond := by
  have hh := dt.hour_lt
  have hm := dt.minute_lt
  have hs := dt.second_lt
  have hu := dt.microsecond_lt
  unfold microseconds
  refine ⟨by omega, ?_, ?_, ?_, by omega⟩
  · have hdiv : ((((dt.date.ordinal * 24 + dt.hour) * 60 + dt.minute) * 60 + dt.second) * 1000000 + dt.microsecond) /
        3600000000 = dt.date.ordinal * 24 + dt.hour := by omega
    omega
  · have hdiv : ((((dt.date.ordinal * 24 + dt.hour) * 60 + dt.minute) * 60 + dt.second) * 1000000 + dt.microsecond) /
        60000000 = (dt.date.ordinal * 24 + dt.hour) * 60 + dt.minute := by omega
    omega
  · have hdiv : ((((dt.date.ordinal * 24 + dt.hour) * 60 + dt.minute) * 60 + dt.second) * 1000000 + dt.microsecond) /
        1000000 = ((dt.date.ordinal * 24 + dt.hour) * 60 + dt.minute) * 60 + dt.second := by omega
    omega

theorem january_le : 1 ≤ 12 := by decide

/-- The first day after the year 9999. -/
def endDate : CalendarDate := ⟨10000, 1, 1, by decide, Nat.one_pos, january_le, Nat.one_pos, by decide⟩

theorem year_le_iff (d : CalendarDate) : d.year ≤ 9999 ↔ d.ordinal < 3652060 := by
  have hend : endDate.ordinal = 3652060 := by decide
  rw [← hend, CalendarDate.ordinal_lt_iff]
  have hkey : d.key < endDate.key ↔ d.year < 10000 ∨ d.year = 10000 ∧ [d.month, d.day] < [1, 1] :=
    List.cons_lt_cons_iff
  have hmonth := d.month_pos
  have hday := d.day_pos
  have hfirst : ¬[d.month, d.day] < [1, 1] := by
    intro hlt
    rcases List.cons_lt_cons_iff.mp hlt with hlt | ⟨-, hlt⟩
    · omega
    · rcases List.cons_lt_cons_iff.mp hlt with hlt | ⟨-, hnil⟩
      · omega
      · cases hnil
  rw [hkey]
  constructor
  · intro hle
    exact Or.inl (by omega)
  · rintro (hlt | ⟨-, hlt⟩)
    · omega
    · exact absurd hlt hfirst

theorem microseconds_bounds (dt : Datetime) :
    86400000000 ≤ dt.microseconds ∧ dt.microseconds < 3652060 * 86400000000 := by
  have hpos := dt.date.ordinal_pos
  have hlt := (year_le_iff dt.date).mp dt.year_le
  have hday := (microseconds_digits dt).1
  omega

/-- A time is the one at its microseconds. -/
theorem ofMicroseconds_microseconds (dt : Datetime) : ofMicroseconds dt.microseconds = some dt := by
  obtain ⟨hday, hhour, hminute, hsecond, hmicrosecond⟩ := microseconds_digits dt
  have hdate : ofOrdinal (dt.microseconds / 86400000000) = dt.date := by rw [hday, ofOrdinal_ordinal]
  have hyear : (ofOrdinal (dt.microseconds / 86400000000)).year ≤ 9999 := hdate ▸ dt.year_le
  unfold ofMicroseconds
  rw [dif_pos hyear]
  exact congrArg some (ext_fields hdate hhour hminute hsecond hmicrosecond)

theorem microseconds_ofMicroseconds (hpos : 86400000000 ≤ t) (h : ofMicroseconds t = some dt) : dt.microseconds = t := by
  unfold ofMicroseconds at h
  simp only at h
  split at h
  next =>
    obtain rfl := Option.some.inj h
    have hday : (ofOrdinal (t / 86400000000)).ordinal = t / 86400000000 := ordinal_ofOrdinal (by omega)
    have hhour : t / 3600000000 = t / 86400000000 * 24 + t / 3600000000 % 24 := by omega
    have hminute : t / 60000000 = t / 3600000000 * 60 + t / 60000000 % 60 := by omega
    have hsecond : t / 1000000 = t / 60000000 * 60 + t / 1000000 % 60 := by omega
    unfold microseconds
    dsimp only
    rw [hday, ← hhour, ← hminute, ← hsecond]
    omega
  next => cases h

theorem ofMicroseconds_eq_some_iff (hpos : 86400000000 ≤ t) : ofMicroseconds t = some dt ↔ dt.microseconds = t := by
  constructor
  · exact microseconds_ofMicroseconds hpos
  · rintro rfl
    exact ofMicroseconds_microseconds dt

theorem exists_microseconds_iff (hpos : 86400000000 ≤ t) :
    (∃ dt : Datetime, dt.microseconds = t) ↔ t < 3652060 * 86400000000 := by
  constructor
  · rintro ⟨dt, rfl⟩
    exact dt.microseconds_bounds.2
  · intro hlt
    have hday : (ofOrdinal (t / 86400000000)).ordinal = t / 86400000000 := ordinal_ofOrdinal (by omega)
    have hyear : (ofOrdinal (t / 86400000000)).year ≤ 9999 := (year_le_iff _).mpr (by omega)
    obtain ⟨dt, hdt⟩ : ∃ dt, ofMicroseconds t = some dt := by
      unfold ofMicroseconds
      rw [dif_pos hyear]
      exact ⟨_, rfl⟩
    exact ⟨dt, microseconds_ofMicroseconds hpos hdt⟩

theorem microseconds_injective (h : dt.microseconds = dt'.microseconds) : dt = dt' := by
  have hdt := ofMicroseconds_microseconds dt
  rw [h, ofMicroseconds_microseconds dt'] at hdt
  exact (Option.some.inj hdt).symm

theorem isoweekday_mod (dt : Datetime) : dt.isoweekday % 7 = dt.date.weekday := by
  unfold isoweekday CalendarDate.weekday
  split <;> omega

/-- A time of whole milliseconds, as a SYSTEMTIME. -/
def systemTime (dt : Datetime) : SystemTime :=
  ⟨dt.date.year, dt.date.month, dt.date.weekday, dt.date.day, dt.hour, dt.minute, dt.second, dt.microsecond / 1000⟩

theorem systemTime_valid (dt : Datetime) : dt.systemTime.Valid where
  date := ⟨dt.date, rfl, rfl, rfl, rfl⟩
  hour := dt.hour_lt
  minute := dt.minute_lt
  second := dt.second_lt
  milliseconds := by
    have := dt.microsecond_lt
    show dt.microsecond / 1000 < 1000
    omega

theorem make_eq_some_iff {year month day hour minute second microsecond : Nat} :
    make year month day hour minute second microsecond = some dt ↔
      dt.date.year = year ∧ dt.date.month = month ∧ dt.date.day = day ∧ dt.hour = hour ∧ dt.minute = minute ∧
        dt.second = second ∧ dt.microsecond = microsecond := by
  unfold make
  constructor
  · intro h
    split at h
    next =>
      obtain rfl := Option.some.inj h
      exact ⟨rfl, rfl, rfl, rfl, rfl, rfl, rfl⟩
    next => cases h
  · rintro ⟨rfl, rfl, rfl, rfl, rfl, rfl, rfl⟩
    rw [dif_pos ⟨⟨dt.date.year_pos, dt.year_le⟩, ⟨dt.date.month_pos, dt.date.month_le⟩,
      ⟨dt.date.day_pos, dt.date.day_le⟩, dt.hour_lt, dt.minute_lt, dt.second_lt, dt.microsecond_lt⟩]

end Datetime

namespace SystemTime

variable {st : SystemTime} {dt : Datetime}

/-- The time of a SYSTEMTIME has whole milliseconds, and gives it back with its day of the week. -/
theorem datetime_eq_some_iff : st.datetime = some dt ↔
    dt.microsecond % 1000 = 0 ∧ dt.systemTime = { st with wDayOfWeek := dt.date.weekday } := by
  unfold datetime
  rw [Datetime.make_eq_some_iff]
  constructor
  · rintro ⟨hyear, hmonth, hday, hhour, hminute, hsecond, hmicrosecond⟩
    refine ⟨by omega, ?_⟩
    unfold Datetime.systemTime
    rw [hyear, hmonth, hday, hhour, hminute, hsecond, show dt.microsecond / 1000 = st.wMilliseconds by omega]
  · rintro ⟨hwhole, heq⟩
    have hmilliseconds : dt.microsecond / 1000 = st.wMilliseconds := congrArg wMilliseconds heq
    exact ⟨congrArg wYear heq, congrArg wMonth heq, congrArg wDay heq, congrArg wHour heq, congrArg wMinute heq,
      congrArg wSecond heq, by omega⟩

theorem datetime_systemTime (hwhole : dt.microsecond % 1000 = 0) : dt.systemTime.datetime = some dt :=
  datetime_eq_some_iff.mpr ⟨hwhole, rfl⟩

/-- A SYSTEMTIME with a time is valid when it has the day of the week of its date. -/
theorem valid_iff (h : st.datetime = some dt) : st.Valid ↔ dt.systemTime = st := by
  obtain ⟨-, heq⟩ := datetime_eq_some_iff.mp h
  constructor
  · rintro ⟨⟨d, hyear, hmonth, hday, hweekday⟩, -, -, -, -⟩
    have hdate : dt.date = d := CalendarDate.ext_fields
      ((congrArg wYear heq).trans hyear.symm) ((congrArg wMonth heq).trans hmonth.symm)
      ((congrArg wDay heq).trans hday.symm)
    rw [heq, hdate, hweekday]
  · intro hsame
    rw [← hsame]
    exact dt.systemTime_valid

/-- A valid SYSTEMTIME has a time up to the year 9999. -/
theorem Valid.datetime_iff (h : st.Valid) : (∃ dt, st.datetime = some dt) ↔ st.wYear ≤ 9999 := by
  constructor
  · rintro ⟨dt, hdt⟩
    have heq := (valid_iff hdt).mp h
    rw [← heq]
    exact dt.year_le
  · intro hle
    obtain ⟨⟨d, hyear, hmonth, hday, -⟩, hhour, hminute, hsecond, hmilliseconds⟩ := h
    refine ⟨⟨d, st.wHour, st.wMinute, st.wSecond, st.wMilliseconds * 1000, by omega, hhour, hminute, hsecond,
      by omega⟩, Datetime.make_eq_some_iff.mpr ⟨hyear, hmonth, hday, rfl, rfl, rfl, rfl⟩⟩

end SystemTime

/-- The SYSTEMTIME of a tick count is that of its whole milliseconds. -/
theorem getSystemTimeStruct_eq_some_iff {quad : Nat} {st : SystemTime} : getSystemTimeStruct quad = some st ↔
    ∃ dt : Datetime, dt.microseconds = filetimeEpoch + quad / 10000 * 1000 ∧ dt.systemTime = st := by
  have hepoch : 86400000000 ≤ filetimeEpoch + quad / 10 := by
    unfold filetimeEpoch
    omega
  unfold getSystemTimeStruct getDatetimeFromFiletime
  rw [Option.map_eq_some_iff]
  constructor
  · rintro ⟨dt, hdt, rfl⟩
    have hmicro := Datetime.microseconds_ofMicroseconds hepoch hdt
    obtain ⟨hday, hhour, hminute, hsecond, hus⟩ := dt.microseconds_digits
    have hlt : quad / 10000 % 1000 * 1000 < 1000000 := by omega
    refine ⟨⟨dt.date, dt.hour, dt.minute, dt.second, quad / 10000 % 1000 * 1000, dt.year_le, dt.hour_lt, dt.minute_lt,
      dt.second_lt, hlt⟩, ?_, ?_⟩
    · have hsum : dt.microseconds = (((dt.date.ordinal * 24 + dt.hour) * 60 + dt.minute) * 60 + dt.second) * 1000000 +
          dt.microsecond := rfl
      unfold Datetime.microseconds
      dsimp only
      unfold filetimeEpoch at *
      omega
    · have hmilliseconds : quad / 10000 % 1000 * 1000 / 1000 = quad / 10000 % 1000 := Nat.mul_div_cancel _ (by decide)
      unfold Datetime.systemTime
      dsimp only
      rw [hmilliseconds, dt.isoweekday_mod]
  · rintro ⟨dt, hmicro, rfl⟩
    obtain ⟨hday, hhour, hminute, hsecond, hus⟩ := dt.microseconds_digits
    have hlt : dt.microsecond + quad / 10 % 1000 < 1000000 := by
      unfold filetimeEpoch at *
      omega
    refine ⟨⟨dt.date, dt.hour, dt.minute, dt.second, dt.microsecond + quad / 10 % 1000, dt.year_le, dt.hour_lt,
      dt.minute_lt, dt.second_lt, hlt⟩, (Datetime.ofMicroseconds_eq_some_iff hepoch).mpr ?_, ?_⟩
    · have hsum : dt.microseconds = (((dt.date.ordinal * 24 + dt.hour) * 60 + dt.minute) * 60 + dt.second) * 1000000 +
          dt.microsecond := rfl
      unfold Datetime.microseconds
      dsimp only
      omega
    · have hmilliseconds : quad / 10000 % 1000 = dt.microsecond / 1000 := by
        unfold filetimeEpoch at *
        omega
      rw [Datetime.isoweekday_mod]
      unfold Datetime.systemTime
      rw [hmilliseconds]

end Speakeasy
