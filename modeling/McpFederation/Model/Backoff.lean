/-
How long the monitor sleeps.

`next_delay` of `health.rs`, and the part of `monitor_leaf` that it is given its arguments
by.  The first sleep of `monitor_leaf` is not one of `next_delay`: it is for the base interval,
which nothing caps there.  A `Duration` is a number of nanoseconds; `f64` operations are read
as the operations on rationals that they approximate, but the way back to a `Duration` rounds
to nanoseconds as `from_secs_f64` does.  Where that function panics there is no result.
-/
import Mathlib.Data.Rat.Floor
import McpFederation.Lib.Rounding
import McpFederation.Model.Registry

namespace McpFederation

/-- `std::time::Duration`: a `u64` of seconds and less than a second in nanoseconds. -/
structure Duration where
  nanos : Nat
  bounded : nanos < 2 ^ 64 * 1000000000
deriving DecidableEq

namespace Duration

theorem nanos_injective : Function.Injective nanos := by
  intro a b h
  cases a
  cases b
  simp_all

instance : LinearOrder Duration := LinearOrder.lift' nanos nanos_injective

def fromSecs (secs : UInt64) : Duration where
  nanos := secs.toNat * 1000000000
  bounded := Nat.mul_lt_mul_of_pos_right secs.toNat_lt (by decide)

def asSecsF64 (d : Duration) : Rat := d.nanos / 1000000000

/-- `from_secs_f64`, which panics on what is negative or too large. -/
def fromSecsF64 (secs : Rat) : Option Duration :=
  let nanos := (Rounding.roundTiesEven (secs * 1000000000)).toNat
  if h : nanos < 2 ^ 64 * 1000000000 then
    if secs < 0 then none else some ⟨nanos, h⟩
  else none

end Duration

/-- `MAX_BACKOFF`. -/
def maxBackoff : Duration := Duration.fromSecs 300

def nextDelay (base : Duration) (multiplier : Rat) (threshold failures : UInt32) :
    Option Duration :=
  if failures < threshold ∨ multiplier ≤ 1 then some (min base maxBackoff)
  else
    let exponent := (failures - threshold).toInt32
    let factor := multiplier ^ exponent.toInt
    let secs := min (base.asSecsF64 * factor) maxBackoff.asSecsF64
    Duration.fromSecsF64 secs

/-- What `monitor_leaf` sleeps for after a round that has left these cells. -/
def monitorDelay (config : HealthCheckConfig) (cells : LeafCells) : Option Duration :=
  nextDelay (Duration.fromSecs config.intervalSeconds)
    (if 1 ≤ config.backoffMultiplier then config.backoffMultiplier else 1)
    (max config.failureThreshold 1) cells.consecutiveFailures

/-- What `monitor_leaf` sleeps for before a round: before the first one the base interval, and
then what the cells ask for that the last round has left. -/
def monitorSleep (config : HealthCheckConfig) (last : Option LeafCells) : Option Duration :=
  match last with
  | none => some (Duration.fromSecs config.intervalSeconds)
  | some cells => monitorDelay config cells

end McpFederation
