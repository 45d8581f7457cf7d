/-
The timestamps are dates of the calendar.

The conversion cuts the day number into eras of 400 years, the era into years that begin in
March, and the year into months, and each cut is one division.  The divisions are not by
constant lengths: a year is found by first taking out the leap days that a whole era, a
century and four years would have brought.  So what is proved of each cut is that the number
lies between the start of the piece and the start of the next one, in the counts of the
calendar; `yearOfEra_spec` has the one argument that is not routine.
-/
import McpFederation.Lib.Calendar
import McpFederation.Model.Timestamp

namespace McpFederation

open Calendar

theorem u64_of_mem {x : Int} (h0 : 0 ≤ x) (h : x < 18446744073709551616) : u64 x = some x :=
  if_pos ⟨h0, h⟩

theorem i64_of_mem {x : Int} (h0 : 0 ≤ x) (h : x < 9223372036854775808) : i64 x = some x :=
  if_pos ⟨by omega, h⟩

theorem asU64_of_mem {x : Int} (h0 : 0 ≤ x) (h : x < 18446744073709551616) : asU64 x = x :=
  Int.emod_eq_of_lt h0 h

theorem asI64_of_mem {x : Int} (h0 : 0 ≤ x) (h : x < 9223372036854775808) : asI64 x = x := by
  unfold asI64
  omega

/-! ### The year -/

section

variable {doe yoe : Int}

/-- Up to the last day of an era, the year found is in the century of the day. -/
theorem century_eq (h0 : 0 ≤ doe) (h : doe < 146096)
    (hyoe : yoe = (doe - doe / 1460 + doe / 36524) / 365) : yoe / 100 = doe / 36524 := by
  have hlow : 100 * (doe / 36524) ≤ yoe := by omega
  have hhigh : yoe < 100 * (doe / 36524) + 100 := by omega
  omega

/-- The year found has begun: no more leap days lie before it than were taken out. -/
theorem marchStart_le (h0 : 0 ≤ doe) (h : doe < 146096)
    (hyoe : yoe = (doe - doe / 1460 + doe / 36524) / 365) : marchStart yoe ≤ doe := by
  have hcentury := century_eq h0 h hyoe
  have hfours : yoe / 4 ≤ doe / 1460 := by omega
  unfold marchStart
  omega

/-- The next year has not begun. -/
theorem lt_marchStart_succ (h0 : 0 ≤ doe) (h : doe < 146096)
    (hyoe : yoe = (doe - doe / 1460 + doe / 36524) / 365) : doe < marchStart (yoe + 1) := by
  have hcentury := century_eq h0 h hyoe
  have hyear : doe - doe / 1460 + doe / 36524 < 365 * (yoe + 1) := by omega
  have hfours : doe / 1460 ≤ (yoe + 1) / 4 := by omega
  unfold marchStart
  by_cases hlast : (yoe + 1) % 100 = 0
  -- the last year of a century is a day short, and so is the century
  · omega
  · have hsame : (yoe + 1) / 100 = yoe / 100 := by omega
    omega

theorem yearOfEra_spec (doe : Int) (h0 : 0 ≤ doe) (h : doe < 146097) :
    ∃ yoe, yearOfEra doe = some yoe ∧ 0 ≤ yoe ∧ yoe < 400 ∧
      marchStart yoe ≤ doe ∧ doe < marchStart (yoe + 1) := by
  refine ⟨(doe - doe / 1460 + doe / 36524 - doe / 146096) / 365, ?_, by omega, by omega, ?_⟩
  · have hfours : u64 (doe - doe / 1460) = some (doe - doe / 1460) :=
      u64_of_mem (by omega) (by omega)
    have hcenturies : u64 (doe - doe / 1460 + doe / 36524)
        = some (doe - doe / 1460 + doe / 36524) := u64_of_mem (by omega) (by omega)
    have hera : u64 (doe - doe / 1460 + doe / 36524 - doe / 146096)
        = some (doe - doe / 1460 + doe / 36524 - doe / 146096) :=
      u64_of_mem (by omega) (by omega)
    simp only [yearOfEra, hfours, hcenturies, hera, Option.bind_eq_bind, Option.bind_some,
      Option.pure_def]
  · rcases Int.lt_or_eq_of_le (Int.le_sub_one_of_lt h) with hlt | hlast
    · have hzero : doe / 146096 = 0 := by omega
      rw [hzero, Int.sub_zero]
      exact ⟨marchStart_le h0 (by omega) rfl, lt_marchStart_succ h0 (by omega) rfl⟩
    -- the leap day that ends the era
    · subst hlast
      decide

theorem dayOfYear_eq (h0 : 0 ≤ yoe) (h : yoe < 400) (hle : marchStart yoe ≤ doe)
    (hdoe : doe < 146097) : dayOfYear doe yoe = some (doe - marchStart yoe) := by
  have hstart : marchStart yoe = 365 * yoe + yoe / 4 - yoe / 100 := by
    unfold marchStart
    omega
  rw [hstart] at hle ⊢
  have hdays : u64 (365 * yoe) = some (365 * yoe) := u64_of_mem (by omega) (by omega)
  have hleap : u64 (365 * yoe + yoe / 4) = some (365 * yoe + yoe / 4) :=
    u64_of_mem (by omega) (by omega)
  have hyear : u64 (365 * yoe + yoe / 4 - yoe / 100)
      = some (365 * yoe + yoe / 4 - yoe / 100) := u64_of_mem (by omega) (by omega)
  simp only [dayOfYear, hdays, hleap, hyear, Option.bind_eq_bind, Option.bind_some]
  exact u64_of_mem (by omega) (by omega)

end

/-! ### The month and the day -/

section

variable {doy : Int}

theorem monthAndDay_eq (h0 : 0 ≤ doy) (h : doy < 366) :
    monthAndDay doy
      = some (if doy < 306 then (5 * doy + 2) / 153 + 3 else (5 * doy + 2) / 153 - 9,
          doy - daysFromMarch ((5 * doy + 2) / 153) + 1) := by
  have hfifths : u64 (5 * doy) = some (5 * doy) := u64_of_mem (by omega) (by omega)
  have hshifted : u64 (5 * doy + 2) = some (5 * doy + 2) := u64_of_mem (by omega) (by omega)
  have hyear : (5 * doy + 2) / 153 < 10 ↔ doy < 306 := by omega
  obtain ⟨mp, hmp⟩ : ∃ mp, (5 * doy + 2) / 153 = mp := ⟨_, rfl⟩
  rw [hmp] at hyear
  have hmonthFifths : u64 (153 * mp) = some (153 * mp) := u64_of_mem (by omega) (by omega)
  have hmonthShifted : u64 (153 * mp + 2) = some (153 * mp + 2) :=
    u64_of_mem (by omega) (by omega)
  have hbefore : u64 (doy - (153 * mp + 2) / 5) = some (doy - daysFromMarch mp) :=
    u64_of_mem (by omega) (by omega)
  have hday : u64 (doy - daysFromMarch mp + 1) = some (doy - daysFromMarch mp + 1) := by
    unfold daysFromMarch
    exact u64_of_mem (by omega) (by omega)
  simp only [monthAndDay, hfifths, hshifted, hmp, hmonthFifths, hmonthShifted, hbefore, hday,
    hyear, Option.bind_eq_bind, Option.bind_some, Option.pure_def]
  by_cases hyear : doy < 306
  · rw [if_pos hyear, if_pos hyear, u64_of_mem (by omega) (by omega), Option.bind_some]
  · rw [if_neg hyear, if_neg hyear, u64_of_mem (by omega) (by omega), Option.bind_some]

/-- The day `doy` of the year that begins on the first of March of `y` is a date. -/
theorem monthAndDay_spec (y doy : Int) (h0 : 0 ≤ doy) (h : doy < 365 + leapDay (y + 1)) :
    ∃ d : Date, monthAndDay doy = some (d.month, d.day) ∧ (d.month ≤ 2 ↔ 306 ≤ doy) ∧
      d.year = (if 306 ≤ doy then y + 1 else y) ∧ d.number = marchStart y + 59 + doy := by
  have hleap := (leapDay_mem (y + 1)).2
  rw [monthAndDay_eq h0 (by omega)]
  obtain ⟨mp, hmp⟩ : ∃ mp, mp = (5 * doy + 2) / 153 := ⟨_, rfl⟩
  rw [← hmp]
  have hbefore : daysFromMarch mp ≤ doy := by unfold daysFromMarch; omega
  have hafter : doy < daysFromMarch (mp + 1) := by unfold daysFromMarch; omega
  by_cases hyear : doy < 306
  -- March to December
  · have hlength := monthLength_of_march y mp (by omega) (by omega)
    refine ⟨⟨y, mp + 3, doy - daysFromMarch mp + 1, by omega, by omega, by omega, by omega⟩,
      by rw [if_pos hyear], ?_, (if_neg (by omega)).symm, ?_⟩
    · simp only
      omega
    · simp only [Date.number]
      rw [daysBeforeMonth_march y (by omega) (by omega), marchStart_eq]
      omega
  -- January and February of the next year
  · rw [if_neg hyear]
    obtain rfl | rfl : mp = 10 ∨ mp = 11 := by omega
    · have hlength : doy - 306 + 1 ≤ monthLength (y + 1) 1 := by
        change _ ≤ (31 : Int)
        omega
      refine ⟨⟨y + 1, 1, doy - 306 + 1, by decide, by decide, by omega, hlength⟩, rfl, ?_,
        (if_pos (by omega)).symm, ?_⟩
      · simp only
        omega
      · simp only [Date.number, daysBeforeMonth_one, yearStart_succ_eq]
        omega
    · have hlength : doy - 337 + 1 ≤ monthLength (y + 1) 2 := by
        rw [monthLength, if_pos rfl]
        omega
      refine ⟨⟨y + 1, 2, doy - 337 + 1, by decide, by decide, by omega, hlength⟩, rfl, ?_,
        (if_pos (by omega)).symm, ?_⟩
      · simp only
        omega
      · simp only [Date.number, daysBeforeMonth_two, yearStart_succ_eq]
        omega

end

/-! ### The whole conversion -/

/-- The two cuts into years: the day `z` is in the year `yoe` of its era. -/
theorem year_spec (z : Int) :
    ∃ yoe, yearOfEra (z - z / 146097 * 146097) = some yoe ∧ 0 ≤ yoe ∧ yoe < 400 ∧
      dayOfYear (z - z / 146097 * 146097) yoe
        = some (z - marchStart (yoe + z / 146097 * 400)) ∧
      marchStart (yoe + z / 146097 * 400) ≤ z ∧ z < marchStart (yoe + z / 146097 * 400 + 1) := by
  obtain ⟨yoe, hyoe, hyoe0, hyoe1, hlow, hhigh⟩ :=
    yearOfEra_spec (z - z / 146097 * 146097) (by omega) (by omega)
  have hstart := marchStart_add_era yoe (z / 146097)
  have hnext := marchStart_add_era (yoe + 1) (z / 146097)
  rw [show yoe + 1 + z / 146097 * 400 = yoe + z / 146097 * 400 + 1 by omega] at hnext
  refine ⟨yoe, hyoe, hyoe0, hyoe1, ?_, by omega, by omega⟩
  rw [dayOfYear_eq hyoe0 hyoe1 hlow (by omega), hstart]
  congr 1
  omega

/-- No day from 1970-01-01 on is in an earlier year. -/
theorem le_year {y z : Int} (hz : 719468 ≤ z) (h : z < marchStart (y + 1)) :
    1970 ≤ if 306 ≤ z - marchStart y then y + 1 else y := by
  have hy : 1969 ≤ y := by
    unfold marchStart at h
    omega
  split
  · omega
  · rcases Int.lt_or_eq_of_le hy with hlt | rfl
    · exact hlt
    · rename_i hdoy
      exact absurd (Int.sub_le_sub_right hz 719162) hdoy

/-- The last day of a `u64` of seconds. -/
def maxDays : Int := 213503982334601

/-- What is left of the conversion when its parts are known: nothing overflows in between. -/
theorem civilFromDays_eq {days z era yoe doy month day : Int} (h0 : 0 ≤ days)
    (h : days ≤ maxDays) (hz : days + 719468 = z) (hera : z / 146097 = era)
    (hyoe : yearOfEra (z - era * 146097) = some yoe) (hyoe0 : 0 ≤ yoe) (hyoe1 : yoe < 400)
    (hdoy : dayOfYear (z - era * 146097) yoe = some doy)
    (hmd : monthAndDay doy = some (month, day)) :
    civilFromDays days
      = some (if month ≤ 2 then yoe + era * 400 + 1 else yoe + era * 400, month, day) := by
  unfold maxDays at h
  have hshift : i64 (days + 719468) = some z := hz ▸ i64_of_mem (by omega) (by omega)
  have htdiv : z.tdiv 146097 = era := by rw [Int.tdiv_eq_ediv_of_nonneg (by omega), hera]
  have heraDays : i64 (era * 146097) = some (era * 146097) := i64_of_mem (by omega) (by omega)
  have hleft : i64 (z - era * 146097) = some (z - era * 146097) :=
    i64_of_mem (by omega) (by omega)
  have hdoe : asU64 (z - era * 146097) = z - era * 146097 := asU64_of_mem (by omega) (by omega)
  have heraYears : i64 (era * 400) = some (era * 400) := i64_of_mem (by omega) (by omega)
  have hy : i64 (asI64 yoe + era * 400) = some (yoe + era * 400) := by
    rw [asI64_of_mem hyoe0 (by omega), i64_of_mem (by omega) (by omega)]
  have hyear : i64 (yoe + era * 400 + 1) = some (yoe + era * 400 + 1) :=
    i64_of_mem (by omega) (by omega)
  have hnonneg : 0 ≤ z := by omega
  rw [civilFromDays, hshift]
  simp only [Option.bind_eq_bind, Option.bind_some, if_pos hnonneg, htdiv, heraDays, hleft, hdoe,
    hyoe, heraYears, hy, hdoy, hmd, hyear, Option.pure_def]
  by_cases hmonth : month ≤ 2
  · rw [if_pos hmonth, if_pos hmonth, Option.bind_some]
  · rw [if_neg hmonth, if_neg hmonth, Option.bind_some]

theorem civilFromDays_spec (days : Int) (h0 : 0 ≤ days) (h : days ≤ maxDays) :
    ∃ d : Date, civilFromDays days = some (d.year, d.month, d.day) ∧ 1970 ≤ d.year ∧
      d.daysSince 1970 = days := by
  obtain ⟨era, hera⟩ : ∃ era, (days + 719468) / 146097 = era := ⟨_, rfl⟩
  obtain ⟨yoe, hyoe, hyoe0, hyoe1, hdoy, hlow, hhigh⟩ := year_spec (days + 719468)
  rw [hera] at hyoe hdoy hlow hhigh
  have hlength := marchStart_succ (yoe + era * 400)
  obtain ⟨d, hmd, hmonth, hyear, hnumber⟩ :=
    monthAndDay_spec (yoe + era * 400) (days + 719468 - marchStart (yoe + era * 400))
      (by omega) (by omega)
  have h1970 : 1970 ≤ d.year := by
    rw [hyear]
    exact le_year (by omega) hhigh
  refine ⟨d, ?_, h1970, ?_⟩
  · rw [civilFromDays_eq h0 h rfl hera hyoe hyoe0 hyoe1 hdoy hmd, hyear]
    simp only [hmonth]
  · rw [Date.daysSince_eq h1970, hnumber]
    change _ - (719527 : Int) = _
    omega

/-- The time of the day `sod` seconds after midnight. -/
def timeOfDay (sod : Int) (h0 : 0 ≤ sod) (h : sod < 86400) : Time where
  hour := sod / 3600
  minute := sod % 3600 / 60
  second := sod % 60
  hour_mem := by omega
  minute_mem := by omega
  second_mem := by omega

/--
**A timestamp is the date and the time of its seconds.**  For every `u64` the conversion
gives a result, with no overflow on the way; the date is one of the calendar, from 1970 on,
and the time one of the day; and the days counted from 1970-01-01 to the date, with the
seconds of the time, are the seconds it was made from.
-/
theorem timestampFromUnix_gregorian (secs : UInt64) :
    ∃ (d : Date) (t : Time), 1970 ≤ d.year ∧
      timestampFromUnix secs = some ⟨d.year, d.month, d.day, t.hour, t.minute, t.second⟩ ∧
      rfc3339FromUnix secs
        = some (Timestamp.format ⟨d.year, d.month, d.day, t.hour, t.minute, t.second⟩) ∧
      d.daysSince 1970 * 86400 + t.seconds = secs.toNat := by
  have hlt : (secs.toNat : Int) < 18446744073709551616 := by exact_mod_cast secs.toNat_lt
  obtain ⟨d, hd, h1970, hdays⟩ := civilFromDays_spec (secs.toNat / 86400)
    (by omega) (by unfold maxDays; omega)
  have hts : timestampFromUnix secs = some ⟨d.year, d.month, d.day,
      secs.toNat % 86400 / 3600, secs.toNat % 86400 % 3600 / 60, secs.toNat % 86400 % 60⟩ := by
    rw [timestampFromUnix, asI64_of_mem (by omega) (by omega), hd]
    rfl
  refine ⟨d, timeOfDay (secs.toNat % 86400) (by omega) (by omega), h1970, hts, ?_, ?_⟩
  · rw [rfc3339FromUnix, hts]
    rfl
  · rw [hdays]
    simp only [Time.seconds, timeOfDay]
    omega

example : rfc3339FromUnix 1709164800 = some "2024-02-29T00:00:00Z" := by decide

end McpFederation
