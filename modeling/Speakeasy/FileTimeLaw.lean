import Speakeasy.FileTimes

namespace Speakeasy

open GregorianCalendar

/-- The first tick after the year 9999. -/
def filetimeEnd : Nat := (3652060 - 584389) * 864000000000

/-- A call that returns TRUE has written the valid SYSTEMTIME of the whole milliseconds of its FILETIME. -/
def FileTimeLaw (ft : FileTime) (lpSystemTime : Nat) : Prop :=
  (fileTimeToSystemTime ft lpSystemTime).1 = true → ∃ st, (fileTimeToSystemTime ft lpSystemTime).2 = some st ∧
    st.Valid ∧ ∃ ft', systemTimeToFileTime st = (true, some ft') ∧ ft'.quad = ft.quad / 10000 * 10000

/-- A SYSTEMTIME becomes a FILETIME and the same SYSTEMTIME again. -/
def SystemTimeLaw (st : SystemTime) (lpSystemTime : Nat) : Prop :=
  ∃ ft, systemTimeToFileTime st = (true, some ft) ∧ fileTimeToSystemTime ft lpSystemTime = (true, some st)

section Quad

theorem quad_ofTimestamp {t : Nat} (h : t < 2 ^ 64) : (FileTime.ofTimestamp t).quad = t := by
  have hlow : (UInt32.ofNat (t &&& 0xFFFFFFFF)).toNat = t % 2 ^ 32 := by
    rw [UInt32.toNat_ofNat', show 0xFFFFFFFF = 2 ^ 32 - 1 by decide, Nat.and_two_pow_sub_one_eq_mod, Nat.mod_mod]
  have hhigh : (UInt32.ofNat (t >>> 32)).toNat = t / 2 ^ 32 := by
    rw [UInt32.toNat_ofNat', Nat.shiftRight_eq_div_pow]
    omega
  unfold FileTime.quad FileTime.ofTimestamp
  dsimp only
  rw [hlow, hhigh, ← Nat.shiftLeft_add_eq_or_of_lt (Nat.mod_lt _ (by decide)), Nat.shiftLeft_eq]
  omega

end Quad

section Order

variable {dt dt' : Datetime}

theorem microseconds_lt_of_date (h : dt.date.ordinal < dt'.date.ordinal) : dt.microseconds < dt'.microseconds := by
  have hday := dt.microseconds_digits.1
  have hday' := dt'.microseconds_digits.1
  omega

/-- Times of whole milliseconds have the order of their SYSTEMTIME fields. -/
theorem microseconds_lt_of_key (hwhole : dt.microsecond % 1000 = 0) (hwhole' : dt'.microsecond % 1000 = 0)
    (h : dt.systemTime.key < dt'.systemTime.key) : dt.microseconds < dt'.microseconds := by
  have hhour := dt.hour_lt
  have hminute := dt.minute_lt
  have hsecond := dt.second_lt
  have hmicrosecond := dt.microsecond_lt
  have h : [dt.date.year, dt.date.month, dt.date.day, dt.hour, dt.minute, dt.second, dt.microsecond / 1000] <
      [dt'.date.year, dt'.date.month, dt'.date.day, dt'.hour, dt'.minute, dt'.second, dt'.microsecond / 1000] := h
  rcases List.cons_lt_cons_iff.mp h with hyear | ⟨hyear, h⟩
  · exact microseconds_lt_of_date (CalendarDate.ordinal_lt_of_key (List.cons_lt_cons_iff.mpr (Or.inl hyear)))
  rcases List.cons_lt_cons_iff.mp h with hmonth | ⟨hmonth, h⟩
  · exact microseconds_lt_of_date (CalendarDate.ordinal_lt_of_key (List.cons_lt_cons_iff.mpr (Or.inr
      ⟨hyear, List.cons_lt_cons_iff.mpr (Or.inl hmonth)⟩)))
  rcases List.cons_lt_cons_iff.mp h with hday | ⟨hday, h⟩
  · exact microseconds_lt_of_date (CalendarDate.ordinal_lt_of_key (List.cons_lt_cons_iff.mpr (Or.inr
      ⟨hyear, List.cons_lt_cons_iff.mpr (Or.inr ⟨hmonth, List.cons_lt_cons_iff.mpr (Or.inl hday)⟩)⟩)))
  have hdate : dt.date = dt'.date := CalendarDate.ext_fields hyear hmonth hday
  unfold Datetime.microseconds
  rw [hdate]
  rcases List.cons_lt_cons_iff.mp h with hlt | ⟨heq, h⟩
  · omega
  rcases List.cons_lt_cons_iff.mp h with hlt | ⟨heq', h⟩
  · omega
  rcases List.cons_lt_cons_iff.mp h with hlt | ⟨heq'', h⟩
  · omega
  rcases List.cons_lt_cons_iff.mp h with hlt | ⟨-, hnil⟩
  · omega
  · cases hnil

theorem key_le_iff (hwhole : dt.microsecond % 1000 = 0) (hwhole' : dt'.microsecond % 1000 = 0) :
    dt.systemTime.key ≤ dt'.systemTime.key ↔ dt.microseconds ≤ dt'.microseconds := by
  constructor
  · intro hle
    rcases lt_or_eq_of_le hle with hlt | heq
    · exact (microseconds_lt_of_key hwhole hwhole' hlt).le
    · have hkey : dt.date.year = dt'.date.year ∧ dt.date.month = dt'.date.month ∧ dt.date.day = dt'.date.day ∧
          dt.hour = dt'.hour ∧ dt.minute = dt'.minute ∧ dt.second = dt'.second ∧
          dt.microsecond / 1000 = dt'.microsecond / 1000 := by
        simpa [SystemTime.key, Datetime.systemTime] using heq
      obtain ⟨hyear, hmonth, hday, hhour, hminute, hsecond, hmilliseconds⟩ := hkey
      rw [Datetime.ext_fields (CalendarDate.ext_fields hyear hmonth hday) hhour hminute hsecond (by omega)]
  · intro hle
    by_contra hkey
    have hlt := microseconds_lt_of_key hwhole' hwhole (lt_of_not_ge hkey)
    omega

end Order

section Calls

variable {st st' : SystemTime} {ft : FileTime} {lpSystemTime : Nat}

theorem whole_of_microseconds {dt : Datetime} {n : Nat} (h : dt.microseconds = filetimeEpoch + n * 1000) :
    dt.microsecond % 1000 = 0 := by
  have hus := dt.microseconds_digits.2.2.2.2
  unfold filetimeEpoch at h
  omega

/-- From the epoch on there is a time exactly before the end of the calendar. -/
theorem exists_datetime_iff (n : Nat) :
    (∃ dt : Datetime, dt.microseconds = filetimeEpoch + n / 10000 * 1000) ↔ n < filetimeEnd := by
  rw [Datetime.exists_microseconds_iff (by unfold filetimeEpoch; omega)]
  unfold filetimeEpoch filetimeEnd
  omega

theorem epoch_le_iff (dt : Datetime) : filetimeEpoch ≤ dt.microseconds ↔ 1601 ≤ dt.date.year := by
  have hday := dt.microseconds_digits.1
  have hfirst : CalendarDate.ordinal ⟨1601, 1, 1, by decide, by decide, by decide, by decide, by decide⟩ = 584389 := by
    decide
  have hkey : dt.date.year < 1601 ↔ dt.date.ordinal < 584389 := by
    rw [← hfirst, CalendarDate.ordinal_lt_iff]
    have hmonth := dt.date.month_pos
    have hpos := dt.date.day_pos
    constructor
    · intro hlt
      exact List.cons_lt_cons_iff.mpr (Or.inl hlt)
    · intro hlt
      rcases List.cons_lt_cons_iff.mp hlt with hlt | ⟨-, hlt⟩
      · exact hlt
      · rcases List.cons_lt_cons_iff.mp hlt with hlt | ⟨-, hlt⟩
        · dsimp only at hlt
          omega
        · rcases List.cons_lt_cons_iff.mp hlt with hlt | ⟨-, hnil⟩
          · dsimp only at hlt
            omega
          · cases hnil
  unfold filetimeEpoch
  omega

/-- A SYSTEMTIME from 1601 on has the FILETIME of its time. -/
theorem systemTimeToFileTime_eq_iff : systemTimeToFileTime st = (true, some ft) ↔
    ∃ dt, st.datetime = some dt ∧ filetimeEpoch ≤ dt.microseconds ∧
      ft = FileTime.ofTimestamp ((dt.microseconds - filetimeEpoch) * 10) := by
  have htimestamp : ∀ dt : Datetime, filetimeEpoch ≤ dt.microseconds →
      (getFiletime dt).toNat = (dt.microseconds - filetimeEpoch) * 10 := by
    intro dt hle
    unfold getFiletime
    omega
  unfold systemTimeToFileTime
  cases hdt : st.datetime with
  | none =>
    constructor
    · intro h
      cases h
    · rintro ⟨dt, h, -⟩
      cases h
  | some dt =>
    have hepoch := epoch_le_iff dt
    by_cases hyear : dt.date.year < 1601
    · simp only [if_pos hyear]
      constructor
      · intro h
        cases h
      · rintro ⟨_, h, hle, -⟩
        obtain rfl := Option.some.inj h
        omega
    · simp only [if_neg hyear, Prod.mk.injEq, true_and, Option.some.injEq]
      constructor
      · rintro rfl
        exact ⟨dt, rfl, by omega, congrArg FileTime.ofTimestamp (htimestamp dt (by omega))⟩
      · rintro ⟨_, rfl, hle, rfl⟩
        exact congrArg FileTime.ofTimestamp (htimestamp dt hle)

theorem quad_of_datetime (dt : Datetime) :
    (FileTime.ofTimestamp ((dt.microseconds - filetimeEpoch) * 10)).quad = (dt.microseconds - filetimeEpoch) * 10 := by
  have hbound := dt.microseconds_bounds.2
  exact quad_ofTimestamp (by unfold filetimeEpoch; omega)

/-- One day later, the date is the next day, with the next day of the week. -/
theorem getSystemTimeStruct_tomorrow {quad : Nat} (h : getSystemTimeStruct quad = some st)
    (h' : getSystemTimeStruct (quad + 864000000000) = some st') :
    ∃ d : CalendarDate, [d.year, d.month, d.day] = [st.wYear, st.wMonth, st.wDay] ∧
      [d.next.year, d.next.month, d.next.day] = [st'.wYear, st'.wMonth, st'.wDay] ∧
      st'.wDayOfWeek = (st.wDayOfWeek + 1) % 7 := by
  obtain ⟨dt, hdt, rfl⟩ := getSystemTimeStruct_eq_some_iff.mp h
  obtain ⟨dt', hdt', rfl⟩ := getSystemTimeStruct_eq_some_iff.mp h'
  have hday := dt.microseconds_digits.1
  have hday' := dt'.microseconds_digits.1
  have hnext : dt'.date = dt.date.next := CalendarDate.ordinal_injective (by
    rw [CalendarDate.ordinal_next]
    omega)
  refine ⟨dt.date, rfl, by rw [← hnext]; rfl, ?_⟩
  show dt'.date.weekday = (dt.date.weekday + 1) % 7
  rw [hnext, CalendarDate.weekday_next]

/-- The epoch is a Monday. -/
example : (getSystemTimeStruct 0).map SystemTime.wDayOfWeek = some 1 := by decide

theorem fileTimeToSystemTime_eq_iff : fileTimeToSystemTime ft lpSystemTime = (true, some st) ↔
    lpSystemTime ≠ 0 ∧ ∃ dt : Datetime, dt.microseconds = filetimeEpoch + ft.quad / 10000 * 1000 ∧
      dt.systemTime = st := by
  rw [← getSystemTimeStruct_eq_some_iff]
  unfold fileTimeToSystemTime
  cases hst : getSystemTimeStruct ft.quad with
  | none =>
    refine iff_of_false ?_ ?_
    · intro h
      cases h
    · rintro ⟨-, h⟩
      cases h
  | some st' =>
    by_cases hlp : lpSystemTime = 0
    · simp [hlp]
    · simp [hlp]

theorem fileTimeLaw_iff : FileTimeLaw ft lpSystemTime ↔ lpSystemTime ≠ 0 ∧ ft.quad < filetimeEnd := by
  have hreturn : (fileTimeToSystemTime ft lpSystemTime).1 = true := by
    unfold fileTimeToSystemTime
    cases getSystemTimeStruct ft.quad <;> rfl
  have hpair : ∀ st, (fileTimeToSystemTime ft lpSystemTime).2 = some st ↔
      fileTimeToSystemTime ft lpSystemTime = (true, some st) := by
    intro st
    rw [Prod.ext_iff]
    exact ⟨fun h => ⟨hreturn, h⟩, And.right⟩
  constructor
  · intro h
    obtain ⟨st, hst, -⟩ := h hreturn
    obtain ⟨hlp, dt, hdt, -⟩ := fileTimeToSystemTime_eq_iff.mp ((hpair st).mp hst)
    exact ⟨hlp, (exists_datetime_iff _).mp ⟨dt, hdt⟩⟩
  · rintro ⟨hlp, hlt⟩ -
    obtain ⟨dt, hdt⟩ := (exists_datetime_iff _).mpr hlt
    have hle : filetimeEpoch ≤ dt.microseconds := by omega
    refine ⟨dt.systemTime, (hpair _).mpr (fileTimeToSystemTime_eq_iff.mpr ⟨hlp, dt, hdt, rfl⟩), dt.systemTime_valid,
      _, systemTimeToFileTime_eq_iff.mpr ⟨dt, SystemTime.datetime_systemTime (whole_of_microseconds hdt), hle, rfl⟩, ?_⟩
    rw [quad_of_datetime dt]
    omega

theorem systemTimeLaw_iff (hvalid : st.Valid) (hyear : 1601 ≤ st.wYear) :
    SystemTimeLaw st lpSystemTime ↔ lpSystemTime ≠ 0 ∧ st.wYear ≤ 9999 := by
  rw [← hvalid.datetime_iff]
  constructor
  · rintro ⟨ft, hft, hst⟩
    obtain ⟨dt, hdt, -⟩ := systemTimeToFileTime_eq_iff.mp hft
    exact ⟨(fileTimeToSystemTime_eq_iff.mp hst).1, dt, hdt⟩
  · rintro ⟨hlp, dt, hdt⟩
    obtain ⟨hwhole, heq⟩ := SystemTime.datetime_eq_some_iff.mp hdt
    have hsame := (SystemTime.valid_iff hdt).mp hvalid
    have hle : filetimeEpoch ≤ dt.microseconds := (epoch_le_iff dt).mpr (by
      rw [show dt.date.year = st.wYear from congrArg SystemTime.wYear hsame]
      exact hyear)
    have hus := dt.microseconds_digits.2.2.2.2
    refine ⟨_, systemTimeToFileTime_eq_iff.mpr ⟨dt, hdt, hle, rfl⟩,
      fileTimeToSystemTime_eq_iff.mpr ⟨hlp, dt, ?_, hsame⟩⟩
    rw [quad_of_datetime dt]
    unfold filetimeEpoch at *
    omega

/-- FileTimeToSystemTime keeps the order. -/
theorem fileTimeToSystemTime_mono {ft' : FileTime} (hle : ft.quad ≤ ft'.quad)
    (h : fileTimeToSystemTime ft lpSystemTime = (true, some st))
    (h' : fileTimeToSystemTime ft' lpSystemTime = (true, some st')) : st.key ≤ st'.key := by
  obtain ⟨-, dt, hdt, rfl⟩ := fileTimeToSystemTime_eq_iff.mp h
  obtain ⟨-, dt', hdt', rfl⟩ := fileTimeToSystemTime_eq_iff.mp h'
  exact (key_le_iff (whole_of_microseconds hdt) (whole_of_microseconds hdt')).mpr (by omega)

/-- SystemTimeToFileTime keeps the order. -/
theorem systemTimeToFileTime_mono {ft' : FileTime} (hle : st.key ≤ st'.key)
    (h : systemTimeToFileTime st = (true, some ft)) (h' : systemTimeToFileTime st' = (true, some ft')) :
    ft.quad ≤ ft'.quad := by
  obtain ⟨dt, hdt, hepoch, rfl⟩ := systemTimeToFileTime_eq_iff.mp h
  obtain ⟨dt', hdt', hepoch', rfl⟩ := systemTimeToFileTime_eq_iff.mp h'
  obtain ⟨hwhole, heq⟩ := SystemTime.datetime_eq_some_iff.mp hdt
  obtain ⟨hwhole', heq'⟩ := SystemTime.datetime_eq_some_iff.mp hdt'
  have hkey : dt.systemTime.key ≤ dt'.systemTime.key := by
    rw [heq, heq']
    exact hle
  have hmicro := (key_le_iff hwhole hwhole').mp hkey
  rw [quad_of_datetime dt, quad_of_datetime dt']
  omega

/-- A shift moves the time of a SYSTEMTIME by its bias in minutes. -/
theorem shiftSystemTime_eq_some_iff {bias sign : Int} : shiftSystemTime bias st sign = some st' ↔
    ∃ dt dt' : Datetime, st.datetime = some dt ∧ (dt'.microseconds : Int) = dt.microseconds + sign * bias * 60000000 ∧
      filetimeEpoch ≤ dt'.microseconds ∧ dt'.systemTime = st' := by
  unfold shiftSystemTime
  cases hdt : st.datetime with
  | none =>
    constructor
    · intro h
      cases h
    · rintro ⟨dt, -, h, -⟩
      cases h
  | some dt =>
    obtain ⟨hwhole, -⟩ := SystemTime.datetime_eq_some_iff.mp hdt
    have hus := dt.microseconds_digits.2.2.2.2
    obtain ⟨q, hq⟩ : ∃ q, q = sign * bias := ⟨_, rfl⟩
    simp only
    rw [← hq]
    by_cases hpos : 0 ≤ getFiletime dt + q * 60 * 10000000
    · have hmoved : ∀ dt' : Datetime, dt'.microseconds =
          filetimeEpoch + (getFiletime dt + q * 60 * 10000000).toNat / 10000 * 1000 ↔
          (dt'.microseconds : Int) = dt.microseconds + q * 60000000 ∧ filetimeEpoch ≤ dt'.microseconds := by
        intro dt'
        unfold getFiletime filetimeEpoch at *
        omega
      rw [if_pos hpos, getSystemTimeStruct_eq_some_iff]
      constructor
      · rintro ⟨dt', hmicro, hst⟩
        obtain ⟨hshift, hle⟩ := (hmoved dt').mp hmicro
        exact ⟨dt, dt', rfl, hshift, hle, hst⟩
      · rintro ⟨_, dt', heq, hshift, hle, hst⟩
        obtain rfl := Option.some.inj heq
        exact ⟨dt', (hmoved dt').mpr ⟨hshift, hle⟩, hst⟩
    · rw [if_neg hpos]
      constructor
      · intro h
        cases h
      · rintro ⟨_, dt', heq, hshift, hle, -⟩
        obtain rfl := Option.some.inj heq
        unfold getFiletime at hpos
        omega

/-- A shift and the opposite one give back a valid SYSTEMTIME. -/
theorem shiftSystemTime_undo {bias sign : Int} {st'' : SystemTime} (h : shiftSystemTime bias st sign = some st')
    (h' : shiftSystemTime bias st' (-sign) = some st'') : st'' = st ↔ st.Valid := by
  obtain ⟨dt, dt', hdt, hshift, -, rfl⟩ := shiftSystemTime_eq_some_iff.mp h
  obtain ⟨dt₂, dt'', hdt₂, hback, -, rfl⟩ := shiftSystemTime_eq_some_iff.mp h'
  obtain ⟨hwhole, -⟩ := SystemTime.datetime_eq_some_iff.mp hdt
  have hus := dt.microseconds_digits.2.2.2.2
  have hus' := dt'.microseconds_digits.2.2.2.2
  have hwhole' : dt'.microsecond % 1000 = 0 := by omega
  rw [SystemTime.datetime_systemTime hwhole'] at hdt₂
  obtain rfl := Option.some.inj hdt₂
  rw [Int.neg_mul] at hback
  obtain rfl : dt'' = dt := Datetime.microseconds_injective (by omega)
  exact (SystemTime.valid_iff hdt).symm

end Calls

/-- What the conversions keep: a FILETIME comes back as its whole milliseconds exactly before the year 10000, a
valid SYSTEMTIME from 1601 on comes back exactly up to the year 9999, both keep the order, and the conversions
to and from local time undo each other on valid SYSTEMTIMEs. -/
theorem timeConversions_iff (lpSystemTime : Nat) (bias : Int) :
    (∀ ft, FileTimeLaw ft lpSystemTime ↔ lpSystemTime ≠ 0 ∧ ft.quad < filetimeEnd) ∧
    (∀ st, st.Valid → 1601 ≤ st.wYear → (SystemTimeLaw st lpSystemTime ↔ lpSystemTime ≠ 0 ∧ st.wYear ≤ 9999)) ∧
    (∀ ft ft' st st', ft.quad ≤ ft'.quad → fileTimeToSystemTime ft lpSystemTime = (true, some st) →
      fileTimeToSystemTime ft' lpSystemTime = (true, some st') → st.key ≤ st'.key) ∧
    (∀ st st' ft ft', st.key ≤ st'.key → systemTimeToFileTime st = (true, some ft) →
      systemTimeToFileTime st' = (true, some ft') → ft.quad ≤ ft'.quad) ∧
    (∀ st st' st'', systemTimeToTzSpecificLocalTime bias st = some st' →
      tzSpecificLocalTimeToSystemTime bias st' = some st'' → (st'' = st ↔ st.Valid)) ∧
    (∀ st st' st'', tzSpecificLocalTimeToSystemTime bias st = some st' →
      systemTimeToTzSpecificLocalTime bias st' = some st'' → (st'' = st ↔ st.Valid)) :=
  ⟨fun _ => fileTimeLaw_iff, fun _ => systemTimeLaw_iff, fun _ _ _ _ => fileTimeToSystemTime_mono,
    fun _ _ _ _ => systemTimeToFileTime_mono, fun _ _ _ h h' => shiftSystemTime_undo h h',
    fun _ _ _ h h' => shiftSystemTime_undo h h'⟩

/-- The first FILETIME of the year 10000 is no FILETIME for the conversion, which still returns TRUE. -/
theorem fileTimeToSystemTime_end :
    fileTimeToSystemTime (FileTime.ofTimestamp filetimeEnd) 0x1000 = (true, none) ∧
      ¬FileTimeLaw (FileTime.ofTimestamp filetimeEnd) 0x1000 := by
  have hcall : fileTimeToSystemTime (FileTime.ofTimestamp filetimeEnd) 0x1000 = (true, none) := by decide
  refine ⟨hcall, fun h => ?_⟩
  unfold FileTimeLaw at h
  rw [hcall] at h
  obtain ⟨st, hst, -⟩ := h rfl
  cases hst

end Speakeasy
