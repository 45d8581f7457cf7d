/-
The timestamp of a status: `rfc3339_from_unix` of `crd_discovery.rs`.

The source works in `u64` and `i64` and trusts that nothing overflows.  Here every operation
that could is checked: it is taken on the integers and gives nothing when its result is not
one of the type's, which is where a debug build panics and a release build goes on with a
wrong number.  The `as` casts are never checked and wrap around.
-/
import Mathlib.Data.List.Basic

namespace McpFederation

/-- The result of a `u64` operation. -/
def u64 (x : Int) : Option Int :=
  if 0 ≤ x ∧ x < 18446744073709551616 then some x else none

/-- The result of an `i64` operation. -/
def i64 (x : Int) : Option Int :=
  if -9223372036854775808 ≤ x ∧ x < 9223372036854775808 then some x else none

/-- `x as u64`. -/
def asU64 (x : Int) : Int := x % 18446744073709551616

/-- `x as i64`. -/
def asI64 (x : Int) : Int :=
  (x + 9223372036854775808) % 18446744073709551616 - 9223372036854775808

/-- What `rfc3339_from_unix` puts into the text. -/
structure Timestamp where
  year : Int
  month : Int
  day : Int
  hour : Int
  minute : Int
  second : Int
deriving DecidableEq, Repr

/-- The year in its era of 400 years, which begins on a first of March. -/
def yearOfEra (doe : Int) : Option Int := do
  let noLeapDays ← u64 (doe - doe / 1460)
  let withCenturies ← u64 (noLeapDays + doe / 36524)
  let yearDays ← u64 (withCenturies - doe / 146096)
  return yearDays / 365

/-- The day in the year that begins on the first of March. -/
def dayOfYear (doe yoe : Int) : Option Int := do
  let days ← u64 (365 * yoe)
  let withLeapDays ← u64 (days + yoe / 4)
  let yearStart ← u64 (withLeapDays - yoe / 100)
  u64 (doe - yearStart)

/-- The month and the day of the month, from the day of a year that begins in March. -/
def monthAndDay (doy : Int) : Option (Int × Int) := do
  let fifths ← u64 (5 * doy)
  let shifted ← u64 (fifths + 2)
  let mp := shifted / 153
  let monthFifths ← u64 (153 * mp)
  let monthShifted ← u64 (monthFifths + 2)
  let before ← u64 (doy - monthShifted / 5)
  let day ← u64 (before + 1)
  let month ← (if mp < 10 then u64 (mp + 3) else u64 (mp - 9))
  return (month, day)

/-- Civil from days.  Shifted so that day 0 is 0000-03-01. -/
def civilFromDays (days : Int) : Option (Int × Int × Int) := do
  let z ← i64 (days + 719468)
  let shifted ← (if 0 ≤ z then some z else i64 (z - 146096))
  let era := shifted.tdiv 146097
  let eraDays ← i64 (era * 146097)
  let left ← i64 (z - eraDays)
  let doe := asU64 left
  let yoe ← yearOfEra doe
  let eraYears ← i64 (era * 400)
  let y ← i64 (asI64 yoe + eraYears)
  let doy ← dayOfYear doe yoe
  let (month, day) ← monthAndDay doy
  let year ← (if month ≤ 2 then i64 (y + 1) else some y)
  return (year, month, day)

def timestampFromUnix (secs : UInt64) : Option Timestamp := do
  let days := asI64 (secs.toNat / 86400)
  let sod : Int := secs.toNat % 86400
  let (year, month, day) ← civilFromDays days
  return ⟨year, month, day, sod / 3600, sod % 3600 / 60, sod % 60⟩

/-- The format `{:0width}`: zeros go after the sign and count towards the width with it. -/
def zeroPadded (width : Nat) (n : Int) : List Char :=
  if n < 0 then '-' :: (Nat.toDigits 10 n.natAbs).leftpad (width - 1) '0'
  else (Nat.toDigits 10 n.natAbs).leftpad width '0'

/-- `"{:04}-{:02}-{:02}T{:02}:{:02}:{:02}Z"` -/
def Timestamp.format (t : Timestamp) : String :=
  String.ofList (zeroPadded 4 t.year ++ '-' :: zeroPadded 2 t.month ++ '-' :: zeroPadded 2 t.day
    ++ 'T' :: zeroPadded 2 t.hour ++ ':' :: zeroPadded 2 t.minute
    ++ ':' :: zeroPadded 2 t.second ++ ['Z'])

def rfc3339FromUnix (secs : UInt64) : Option String := do
  let t ← timestampFromUnix secs
  return t.format

end McpFederation
