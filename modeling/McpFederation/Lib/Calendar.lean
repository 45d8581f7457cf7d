/-
The proleptic Gregorian calendar.

A date is a year, a month and a day that exist together, and its number is a count: the
days of the years before it, of the months before it in its year, and of the days before it
in its month.  Nothing here is a formula for a conversion.  What a conversion needs is that
the counts have closed forms, and `yearStart` gives the one that matters: the days up to a
year are 365 a year and the leap days of the centuries and the four hundred years.
-/
import Mathlib.Tactic.IntervalCases

namespace Calendar

/-- Every fourth year is a leap year, but of the centuries only every fourth. -/
def isLeap (y : Int) : Bool := y % 4 == 0 && (y % 100 != 0 || y % 400 == 0)

/-- The leap day of a year, if it has one. -/
def leapDay (y : Int) : Int := if isLeap y then 1 else 0

def yearLength (y : Int) : Int := 365 + leapDay y

def monthLength (y m : Int) : Int :=
  if m = 2 then 28 + leapDay y
  else if m = 4 ∨ m = 6 ∨ m = 9 ∨ m = 11 then 30
  else 31

/-- A date of the calendar: the month is one of the year's, and the day one of the month's. -/
structure Date where
  year : Int
  month : Int
  day : Int
  one_le_month : 1 ≤ month
  month_le : month ≤ 12
  one_le_day : 1 ≤ day
  day_le : day ≤ monthLength year month

/-- A time of the day, to the second. -/
structure Time where
  hour : Int
  minute : Int
  second : Int
  hour_mem : 0 ≤ hour ∧ hour < 24
  minute_mem : 0 ≤ minute ∧ minute < 60
  second_mem : 0 ≤ second ∧ second < 60

/-- The lengths of `n` periods in a row, from the period `a` on. -/
def total (length : Int → Int) (a : Int) : Nat → Int
  | 0 => 0
  | n + 1 => total length a n + length (a + n)

/-- The days of a year that come before one of its months. -/
def daysBeforeMonth (y m : Int) : Int := total (monthLength y) 1 (m - 1).toNat

/-- The days from the first of January of the year `y₀` to a date of that year or later. -/
def Date.daysSince (y₀ : Int) (d : Date) : Int :=
  total yearLength y₀ (d.year - y₀).toNat + daysBeforeMonth d.year d.month + (d.day - 1)

/-- The seconds since midnight. -/
def Time.seconds (t : Time) : Int := t.hour * 3600 + t.minute * 60 + t.second

/-! ### Closed forms -/

/-- The first of January of a year, counted from the year 0. -/
def yearStart (y : Int) : Int := 365 * y + (y - 1) / 4 - (y - 1) / 100 + (y - 1) / 400

theorem leapDay_eq (y : Int) :
    leapDay y = (y / 4 - (y - 1) / 4) - (y / 100 - (y - 1) / 100) + (y / 400 - (y - 1) / 400) := by
  unfold leapDay isLeap
  split <;> rename_i h <;> simp at h <;> omega

theorem leapDay_mem (y : Int) : 0 ≤ leapDay y ∧ leapDay y ≤ 1 := by
  unfold leapDay
  split <;> omega

theorem yearStart_succ (y : Int) : yearStart (y + 1) = yearStart y + yearLength y := by
  rw [yearLength, leapDay_eq, yearStart, yearStart, Int.add_sub_cancel]
  omega

theorem total_yearLength (y : Int) (n : Nat) :
    total yearLength y n = yearStart (y + n) - yearStart y := by
  induction n with
  | zero => simp [total]
  | succ n ih =>
      rw [total, ih, Nat.cast_succ, ← Int.add_assoc, yearStart_succ]
      omega

theorem daysBeforeMonth_succ (y : Int) {m : Int} (h : 1 ≤ m) :
    daysBeforeMonth y (m + 1) = daysBeforeMonth y m + monthLength y m := by
  obtain ⟨n, rfl⟩ : ∃ n : Nat, m = 1 + n := ⟨(m - 1).toNat, by omega⟩
  rw [daysBeforeMonth, daysBeforeMonth, show (1 + (n : Int) + 1 - 1).toNat = n + 1 by omega,
    show (1 + (n : Int) - 1).toNat = n by omega]
  rfl

/-- The number of a date, counted from the year 0. -/
def Date.number (d : Date) : Int :=
  yearStart d.year + daysBeforeMonth d.year d.month + (d.day - 1)

theorem Date.daysSince_eq {y₀ : Int} {d : Date} (h : y₀ ≤ d.year) :
    d.daysSince y₀ = d.number - yearStart y₀ := by
  rw [daysSince, number, total_yearLength, show y₀ + ((d.year - y₀).toNat : Int) = d.year by omega]
  omega

/-! ### Years that begin in March

A year that begins on the first of March has its leap day at its end, if at all, and all its
months but the last are 153 days every five.
-/

/-- The first of March of a year, counted from that of the year 0. -/
def marchStart (y : Int) : Int := 365 * y + y / 4 - y / 100 + y / 400

theorem marchStart_eq (y : Int) : marchStart y = yearStart y + leapDay y := by
  rw [leapDay_eq, marchStart, yearStart]
  omega

theorem yearStart_succ_eq (y : Int) : yearStart (y + 1) = marchStart y + 365 := by
  rw [yearStart_succ, yearLength, marchStart_eq]
  omega

theorem marchStart_succ (y : Int) : marchStart (y + 1) = marchStart y + 365 + leapDay (y + 1) := by
  rw [marchStart_eq, yearStart_succ_eq]

/-- Four hundred years are 146,097 days. -/
theorem marchStart_add_era (y k : Int) : marchStart (y + k * 400) = marchStart y + k * 146097 := by
  unfold marchStart
  omega

/-- The days from the first of March to the month that is `mp` months later. -/
def daysFromMarch (mp : Int) : Int := (153 * mp + 2) / 5

theorem monthLength_of_march (y mp : Int) (h0 : 0 ≤ mp) (h : mp ≤ 9) :
    monthLength y (mp + 3) = daysFromMarch (mp + 1) - daysFromMarch mp := by
  interval_cases mp <;> rfl

theorem daysBeforeMonth_one (y : Int) : daysBeforeMonth y 1 = 0 := rfl

theorem daysBeforeMonth_two (y : Int) : daysBeforeMonth y 2 = 31 := rfl

theorem daysBeforeMonth_march (y : Int) {mp : Int} (h0 : 0 ≤ mp) (h : mp ≤ 9) :
    daysBeforeMonth y (mp + 3) = 59 + leapDay y + daysFromMarch mp := by
  induction mp, h0 using Int.leInduction with
  | base =>
      rw [show (0 : Int) + 3 = 2 + 1 by rfl, daysBeforeMonth_succ y (by decide),
        daysBeforeMonth_two, monthLength, if_pos rfl, daysFromMarch]
      omega
  | succ mp h0 ih =>
      rw [show mp + 1 + 3 = mp + 3 + 1 by omega, daysBeforeMonth_succ y (by omega),
        ih (by omega), monthLength_of_march y mp h0 (by omega)]
      omega

end Calendar
