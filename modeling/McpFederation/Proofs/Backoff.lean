/-
The backoff between health checks.

`next_delay` is meant to grow: past the threshold, every failure multiplies the delay, up to
`MAX_BACKOFF`.  The number of failures past the threshold is cast to an `i32` before it
becomes an exponent, and from `2^31` on the cast gives a negative number: the delay is then
the base *divided* by a power of the multiplier, and starts to grow from there.

`backsOff_iff` says exactly when that does not show.  Either no count is so far past the
threshold, or there is no backoff, or neither of the two delays is any different from the
base, capped: the base is so large that it is above the cap even after the division, or so
small that rounding to nanoseconds takes the difference away.
-/
import McpFederation.Model.Backoff
import McpFederation.Proofs.Breaker

namespace McpFederation

open Rounding

/-- What a delay is between. -/
def Duration.Within (base delay : Duration) : Prop :=
  min base maxBackoff ≤ delay ∧ delay ≤ maxBackoff

/-- The delays after `m` and after `n` failures exist, do not fall, and are within bounds. -/
def BacksOff (base : Duration) (multiplier : Rat) (threshold m n : UInt32) : Prop :=
  ∃ d d', nextDelay base multiplier threshold m = some d ∧
    nextDelay base multiplier threshold n = some d' ∧
    d ≤ d' ∧ base.Within d ∧ base.Within d'

/-- The number of failures past the threshold, as an `i32`. -/
def pastThreshold (threshold failures : UInt32) : Int :=
  if failures.toNat < threshold.toNat + 2 ^ 31 then failures.toNat - threshold.toNat
  else failures.toNat - threshold.toNat - 2 ^ 32

/-- The power of the multiplier does not move the delay away from the base, capped: it takes
at most half a nanosecond off the cap, or changes the base by less than half a nanosecond.
A half counts if the base is even, which rounding prefers. -/
def Unmoved (base : Duration) (multiplier : Rat) (threshold failures : UInt32) : Prop :=
  let factor := multiplier ^ pastThreshold threshold failures
  threshold ≤ failures →
    if base < maxBackoff then
      |2 * (base.nanos * factor) - 2 * base.nanos| < 1 ∨
        (|2 * (base.nanos * factor) - 2 * base.nanos| = 1 ∧ Even base.nanos)
    else 2 * maxBackoff.nanos - 1 ≤ 2 * (base.nanos * factor)

/-! ### The delay as a number -/

/-- The cast wraps around at `2^31`. -/
theorem toInt_toInt32_sub {threshold failures : UInt32} (h : threshold ≤ failures) :
    (failures - threshold).toInt32.toInt = pastThreshold threshold failures := by
  have hle := UInt32.le_iff_toNat_le.mp h
  have hlt := failures.toNat_lt
  have hsub : ((failures - threshold).toBitVec.toNat : Int)
      = failures.toNat - threshold.toNat := by
    rw [UInt32.toNat_toBitVec, UInt32.toNat_sub_of_le _ _ h]
    omega
  rw [Int32.toInt, UInt32.toBitVec_toInt32, BitVec.toInt_eq_toNat_cond, pastThreshold]
  split <;> split <;> omega

@[simp] theorem Duration.nanos_min (a b : Duration) : (min a b).nanos = min a.nanos b.nanos :=
  Monotone.map_min fun _ _ h => h

theorem Duration.asSecsF64_nonneg (d : Duration) : 0 ≤ d.asSecsF64 := by
  unfold asSecsF64
  positivity

/-- A number of seconds below the cap is a duration. -/
theorem Duration.fromSecsF64_eq {secs : Rat} (hnonneg : 0 ≤ secs)
    (hle : secs * 1000000000 ≤ maxBackoff.nanos) :
    ∃ d, fromSecsF64 secs = some d ∧ (d.nanos : Int) = roundTiesEven (secs * 1000000000) := by
  have hzero : ((0 : Nat) : Rat) ≤ secs * 1000000000 := by
    push_cast
    positivity
  have hlow := roundTiesEven_mono hzero
  have hhigh := roundTiesEven_mono hle
  rw [roundTiesEven_natCast] at hlow hhigh
  have hbound : (roundTiesEven (secs * 1000000000)).toNat < 2 ^ 64 * 1000000000 := by
    have hmax := maxBackoff.bounded
    omega
  refine ⟨⟨_, hbound⟩, ?_, Int.toNat_of_nonneg hlow⟩
  rw [fromSecsF64, dif_pos hbound, if_neg (not_lt.mpr hnonneg)]

/-- The delay in nanoseconds. -/
def delayNanos (base : Duration) (multiplier : Rat) (threshold failures : UInt32) : Int :=
  if failures < threshold ∨ multiplier ≤ 1 then min (base.nanos : Int) maxBackoff.nanos
  else
    roundTiesEven
      (min (base.nanos * multiplier ^ pastThreshold threshold failures) (maxBackoff.nanos : Rat))

/-- `next_delay` never panics. -/
theorem nextDelay_eq (base : Duration) (multiplier : Rat) (threshold failures : UInt32) :
    ∃ d, nextDelay base multiplier threshold failures = some d ∧
      (d.nanos : Int) = delayNanos base multiplier threshold failures := by
  by_cases hflat : failures < threshold ∨ multiplier ≤ 1
  · rw [nextDelay, delayNanos, if_pos hflat, if_pos hflat]
    exact ⟨_, rfl, by simp⟩
  · obtain ⟨hpast, hgrow⟩ := not_or.mp hflat
    have hfactor : 0 ≤ multiplier ^ pastThreshold threshold failures :=
      zpow_nonneg (by linarith) _
    rw [nextDelay, delayNanos, if_neg hflat, if_neg hflat]
    simp only
    rw [toInt_toInt32_sub (UInt32.not_lt.mp hpast)]
    have hsecs : min (base.asSecsF64 * multiplier ^ pastThreshold threshold failures)
          maxBackoff.asSecsF64 * 1000000000
        = min (base.nanos * multiplier ^ pastThreshold threshold failures)
          (maxBackoff.nanos : Rat) := by
      rw [min_mul_of_nonneg _ _ (by norm_num), Duration.asSecsF64, Duration.asSecsF64]
      congr 1
      · ring
      · ring
    have hnonneg : 0 ≤ min (base.asSecsF64 * multiplier ^ pastThreshold threshold failures)
        maxBackoff.asSecsF64 :=
      le_min (mul_nonneg base.asSecsF64_nonneg hfactor) maxBackoff.asSecsF64_nonneg
    obtain ⟨d, hd, hnanos⟩ := Duration.fromSecsF64_eq hnonneg
      (hsecs.trans_le (min_le_right _ _))
    exact ⟨d, hd, by rw [hnanos, hsecs]⟩

section

variable {base : Duration} {multiplier : Rat} {threshold failures m n : UInt32}

theorem backsOff_iff_nanos :
    BacksOff base multiplier threshold m n ↔
      delayNanos base multiplier threshold m ≤ delayNanos base multiplier threshold n ∧
      (min (base.nanos : Int) maxBackoff.nanos ≤ delayNanos base multiplier threshold m ∧
        delayNanos base multiplier threshold m ≤ maxBackoff.nanos) ∧
      (min (base.nanos : Int) maxBackoff.nanos ≤ delayNanos base multiplier threshold n ∧
        delayNanos base multiplier threshold n ≤ maxBackoff.nanos) := by
  obtain ⟨d, hd, hnanos⟩ := nextDelay_eq base multiplier threshold m
  obtain ⟨d', hd', hnanos'⟩ := nextDelay_eq base multiplier threshold n
  have hle : ∀ a b : Duration, a ≤ b ↔ (a.nanos : Int) ≤ b.nanos := fun a b =>
    Int.ofNat_le.symm
  rw [BacksOff, hd, hd', ← hnanos, ← hnanos']
  simp only [Option.some.injEq, exists_and_left, exists_eq_left', Duration.Within, hle,
    Duration.nanos_min, Nat.cast_min]

/-! ### Where the delay lies -/

theorem pastThreshold_nonneg (h : threshold ≤ failures)
    (hnear : failures.toNat < threshold.toNat + 2 ^ 31) :
    0 ≤ pastThreshold threshold failures := by
  have hle := UInt32.le_iff_toNat_le.mp h
  rw [pastThreshold, if_pos hnear]
  omega

theorem pastThreshold_neg (hfar : threshold.toNat + 2 ^ 31 ≤ failures.toNat) :
    pastThreshold threshold failures < 0 := by
  have hlt := failures.toNat_lt
  rw [pastThreshold, if_neg (by omega)]
  omega

/-- Past the threshold, the rounded product is capped. -/
theorem delayNanos_of_past (hpast : threshold ≤ failures) (hgrow : 1 < multiplier) :
    delayNanos base multiplier threshold failures
      = min (roundTiesEven (base.nanos * multiplier ^ pastThreshold threshold failures))
        (maxBackoff.nanos : Int) := by
  have hflat : ¬ (failures < threshold ∨ multiplier ≤ 1) :=
    not_or.mpr ⟨UInt32.not_lt.mpr hpast, not_le.mpr hgrow⟩
  rw [delayNanos, if_neg hflat, Monotone.map_min fun _ _ h => roundTiesEven_mono h,
    roundTiesEven_natCast]

theorem delayNanos_of_flat (hflat : failures < threshold ∨ multiplier ≤ 1) :
    delayNanos base multiplier threshold failures = min (base.nanos : Int) maxBackoff.nanos :=
  if_pos hflat

theorem delayNanos_le : delayNanos base multiplier threshold failures ≤ maxBackoff.nanos := by
  by_cases hflat : failures < threshold ∨ multiplier ≤ 1
  · rw [delayNanos_of_flat hflat]
    exact min_le_right _ _
  · obtain ⟨hpast, hgrow⟩ := not_or.mp hflat
    rw [delayNanos_of_past (UInt32.not_lt.mp hpast) (not_le.mp hgrow)]
    exact min_le_right _ _

/-- The rounded product grows with the exponent. -/
theorem roundTiesEven_mul_zpow_mono (base : Duration) (hgrow : 1 < multiplier) {i j : Int}
    (hij : i ≤ j) :
    roundTiesEven (base.nanos * multiplier ^ i) ≤ roundTiesEven (base.nanos * multiplier ^ j) :=
  roundTiesEven_mono (mul_le_mul_of_nonneg_left (zpow_le_zpow_right₀ hgrow.le hij)
    (Nat.cast_nonneg _))

theorem roundTiesEven_mul_zpow_zero (base : Duration) (multiplier : Rat) :
    roundTiesEven (base.nanos * multiplier ^ (0 : Int)) = base.nanos := by
  rw [zpow_zero, mul_one, roundTiesEven_natCast]

/-- Up to `2^31` past the threshold, the delay is not below the base. -/
theorem le_delayNanos (hnear : failures.toNat < threshold.toNat + 2 ^ 31) :
    min (base.nanos : Int) maxBackoff.nanos ≤ delayNanos base multiplier threshold failures := by
  by_cases hflat : failures < threshold ∨ multiplier ≤ 1
  · rw [delayNanos_of_flat hflat]
  · obtain ⟨hpast, hgrow⟩ := not_or.mp hflat
    have hpast := UInt32.not_lt.mp hpast
    have hgrow := not_le.mp hgrow
    have hmono := roundTiesEven_mul_zpow_mono base hgrow (pastThreshold_nonneg hpast hnear)
    rw [roundTiesEven_mul_zpow_zero] at hmono
    rw [delayNanos_of_past hpast hgrow]
    exact min_le_min_right _ hmono

/-- From there on, it is not above. -/
theorem delayNanos_le_base (hfar : threshold.toNat + 2 ^ 31 ≤ failures.toNat)
    (hgrow : 1 < multiplier) :
    delayNanos base multiplier threshold failures ≤ min (base.nanos : Int) maxBackoff.nanos := by
  have hpast : threshold ≤ failures := UInt32.le_iff_toNat_le.mpr (by omega)
  have hmono := roundTiesEven_mul_zpow_mono base hgrow (pastThreshold_neg hfar).le
  rw [roundTiesEven_mul_zpow_zero] at hmono
  rw [delayNanos_of_past hpast hgrow]
  exact min_le_min_right _ hmono

theorem pastThreshold_mono (hmn : m ≤ n)
    (hnear : n.toNat < threshold.toNat + 2 ^ 31) :
    pastThreshold threshold m ≤ pastThreshold threshold n := by
  have hle := UInt32.le_iff_toNat_le.mp hmn
  rw [pastThreshold, pastThreshold, if_pos (by omega), if_pos hnear]
  omega

/-- As long as the cast is exact, more failures never mean a shorter delay. -/
theorem delayNanos_mono (hmn : m ≤ n) (hnear : n.toNat < threshold.toNat + 2 ^ 31) :
    delayNanos base multiplier threshold m ≤ delayNanos base multiplier threshold n := by
  by_cases hflat : m < threshold ∨ multiplier ≤ 1
  · rw [delayNanos_of_flat hflat]
    exact le_delayNanos hnear
  · obtain ⟨hpast, hgrow⟩ := not_or.mp hflat
    have hpast := UInt32.not_lt.mp hpast
    have hgrow := not_le.mp hgrow
    rw [delayNanos_of_past hpast hgrow, delayNanos_of_past (UInt32.le_trans hpast hmn) hgrow]
    exact min_le_min_right _
      (roundTiesEven_mul_zpow_mono base hgrow (pastThreshold_mono hmn hnear))

/-! ### Where it does not differ from the base -/

theorem delayNanos_eq_base_iff (hgrow : 1 < multiplier) :
    delayNanos base multiplier threshold failures = min (base.nanos : Int) maxBackoff.nanos ↔
      Unmoved base multiplier threshold failures := by
  by_cases hpast : threshold ≤ failures
  · rw [delayNanos_of_past hpast hgrow, Unmoved]
    simp only [hpast, true_imp_iff]
    generalize (base.nanos : Rat) * multiplier ^ pastThreshold threshold failures = x
    split
    · next hbase =>
        have hlt : (base.nanos : Int) < maxBackoff.nanos := Int.ofNat_lt.mpr hbase
        have heq : min (roundTiesEven x) (maxBackoff.nanos : Int) = base.nanos ↔
            roundTiesEven x = base.nanos := by omega
        rw [min_eq_left hlt.le, heq, roundTiesEven_eq_iff, Int.even_coe_nat]
        push_cast
        rfl
    · next hbase =>
        have hle : (maxBackoff.nanos : Int) ≤ base.nanos :=
          Int.ofNat_le.mpr (not_lt.mp hbase)
        have heven : Even (maxBackoff.nanos : Int) := by decide
        rw [min_eq_right hle, min_eq_right_iff, le_roundTiesEven_iff, le_iff_lt_or_eq]
        simp only [heven, and_true]
        push_cast
        rfl
  · rw [delayNanos_of_flat (Or.inl (UInt32.not_le.mp hpast))]
    exact iff_of_true rfl fun h => absurd h hpast

/-! ### When the delays back off -/

theorem backsOff_of_flat (hflat : multiplier ≤ 1) : BacksOff base multiplier threshold m n := by
  rw [backsOff_iff_nanos, delayNanos_of_flat (Or.inr hflat), delayNanos_of_flat (Or.inr hflat)]
  exact ⟨le_refl _, ⟨le_refl _, min_le_right _ _⟩, le_refl _, min_le_right _ _⟩

theorem backsOff_of_near (hmn : m ≤ n) (hnear : n.toNat < threshold.toNat + 2 ^ 31) :
    BacksOff base multiplier threshold m n := by
  have hle := UInt32.le_iff_toNat_le.mp hmn
  exact backsOff_iff_nanos.mpr ⟨delayNanos_mono hmn hnear,
    ⟨le_delayNanos (by omega), delayNanos_le⟩, le_delayNanos hnear, delayNanos_le⟩

/-- Past the wrap, both delays have to be what they would be without any backoff. -/
theorem backsOff_iff_of_far (hgrow : 1 < multiplier)
    (hfar : threshold.toNat + 2 ^ 31 ≤ n.toNat) :
    BacksOff base multiplier threshold m n ↔
      Unmoved base multiplier threshold m ∧ Unmoved base multiplier threshold n := by
  have hhigh : delayNanos base multiplier threshold n ≤ min (base.nanos : Int) maxBackoff.nanos :=
    delayNanos_le_base hfar hgrow
  rw [backsOff_iff_nanos, ← delayNanos_eq_base_iff hgrow, ← delayNanos_eq_base_iff hgrow]
  refine ⟨?_, ?_⟩
  · intro h
    obtain ⟨hle, ⟨hlow, -⟩, hlow', -⟩ := h
    exact ⟨le_antisymm (hle.trans hhigh) hlow, le_antisymm hhigh hlow'⟩
  · intro h
    rw [h.1, h.2]
    exact ⟨le_refl _, ⟨le_refl _, min_le_right _ _⟩, le_refl _, min_le_right _ _⟩

end

/--
**When the backoff is monotone and bounded**: as long as the number of failures is less than
`2^31` past the threshold, or where there is nothing to see of the power that it is turned
into.
-/
theorem backsOff_iff (base : Duration) (multiplier : Rat) (threshold m n : UInt32)
    (hmn : m ≤ n) :
    BacksOff base multiplier threshold m n ↔
      n.toNat < threshold.toNat + 2 ^ 31 ∨ multiplier ≤ 1 ∨
        (Unmoved base multiplier threshold m ∧ Unmoved base multiplier threshold n) := by
  by_cases hnear : n.toNat < threshold.toNat + 2 ^ 31
  · exact iff_of_true (backsOff_of_near hmn hnear) (Or.inl hnear)
  · by_cases hflat : multiplier ≤ 1
    · exact iff_of_true (backsOff_of_flat hflat) (Or.inr (Or.inl hflat))
    · rw [backsOff_iff_of_far (not_le.mp hflat) (not_lt.mp hnear)]
      simp only [hnear, hflat, false_or]

/-- Three failures past the threshold, and none. -/
theorem halfMinute_backs_off :
    (3 : UInt32) ≤ 6 ∧ BacksOff (Duration.fromSecs 30) 2 3 3 6 :=
  ⟨by decide, (backsOff_iff _ _ _ _ _ (by decide)).mpr (Or.inl (by decide))⟩

/-- After `2^32 - 4` failures past the threshold, half a minute has become less than two
seconds. -/
theorem halfMinute_shrinks :
    nextDelay (Duration.fromSecs 30) 2 3 3 = some (Duration.fromSecs 30) ∧
      (nextDelay (Duration.fromSecs 30) 2 3 4294967295).map Duration.nanos = some 1875000000 ∧
      ¬ BacksOff (Duration.fromSecs 30) 2 3 3 4294967295 := by
  have hbefore : nextDelay (Duration.fromSecs 30) 2 3 3 = some (Duration.fromSecs 30) := by
    decide +kernel
  have hafter : (nextDelay (Duration.fromSecs 30) 2 3 4294967295).map Duration.nanos
      = some 1875000000 := by
    decide +kernel
  refine ⟨hbefore, hafter, ?_⟩
  intro h
  obtain ⟨d, d', hd, hd', hle, -⟩ := h
  rw [hbefore, Option.some.injEq] at hd
  rw [hd', Option.map_some, Option.some.injEq] at hafter
  have hnanos : d.nanos ≤ d'.nanos := hle
  rw [← hd, hafter] at hnanos
  exact absurd hnanos (by decide)

/-! ### The monitor -/

/-- With no failures on its count, the monitor sleeps for the base. -/
theorem monitorDelay_of_zero (config : HealthCheckConfig) {cells : LeafCells}
    (hcount : cells.consecutiveFailures = 0) :
    monitorDelay config cells
      = some (min (Duration.fromSecs config.intervalSeconds) maxBackoff) := by
  have hlt : (0 : UInt32) < max config.failureThreshold 1 := by
    rw [← UInt32.not_le, threshold_le_iff]
    simp
  rw [monitorDelay, hcount, nextDelay, if_pos (Or.inl hlt)]

section

variable {S : Type} (out : Surroundings S) (env : ClientEnv) (cl : LeafClient)
  (config : HealthCheckConfig) (s : S)

/-- The sleep before the check number `n`; the first one has number 0. -/
def Surroundings.sleepBefore : Nat → Option Duration
  | 0 => monitorSleep config none
  | n + 1 =>
      monitorSleep config (some (out.afterRounds env cl config (n + 1) (out.started env cl s)).2)

/-- What a failed check does to the delay. -/
theorem monitorDelay_failure (n : Nat)
    (hfail : out.checkOk cl (out.afterRounds env cl config n (out.started env cl s)) = false)
    (hfew : trailingFailures (out.outcomes env cl config (n + 1) (out.started env cl s)) < 2 ^ 31) :
    ∃ d d', monitorDelay config (out.afterRounds env cl config n (out.started env cl s)).2
        = some d ∧
      monitorDelay config (out.afterRounds env cl config (n + 1) (out.started env cl s)).2
        = some d' ∧
      d ≤ d' ∧ (Duration.fromSecs config.intervalSeconds).Within d ∧
      (Duration.fromSecs config.intervalSeconds).Within d' := by
  have hcount : (out.afterRounds env cl config (n + 1)
        (out.started env cl s)).2.consecutiveFailures
      = (out.afterRounds env cl config n (out.started env cl s)).2.consecutiveFailures + 1 := by
    rw [out.afterRounds_succ]
    exact (Prod.mk.inj (Surroundings.vitals_round_of_failure hfail)).2
  -- The count before the round is small enough that one more does not wrap it around.
  have hlaw := (breakerLaw_rounds out env cl config s n).count
  rw [out.outcomes_succ, hfail, trailingFailures_failure] at hfew
  have hbound : (out.afterRounds env cl config n
      (out.started env cl s)).2.consecutiveFailures.toNat < 2 ^ 31 := by
    refine (hlaw.trans_le (Nat.mod_le _ _)).trans_lt ?_
    split <;> omega
  have hnext : ((out.afterRounds env cl config n
        (out.started env cl s)).2.consecutiveFailures + 1).toNat
      = (out.afterRounds env cl config n (out.started env cl s)).2.consecutiveFailures.toNat
        + 1 := by
    rw [UInt32.toNat_add, UInt32.toNat_one]
    exact Nat.mod_eq_of_lt (by omega)
  have hthreshold := (threshold_le_iff config _).mp (UInt32.le_refl _)
  rw [monitorDelay, monitorDelay, hcount]
  refine backsOff_of_near (UInt32.le_iff_toNat_le.mpr ?_) ?_ <;> omega

/--
**The monitor's sleeps.**  However the leaf, its health endpoint and the clock answer: after a
success the monitor sleeps for the base, capped.  After a failure it sleeps for a time within
bounds and no less than the time before it, as far as that was not above the cap, which can only
be said of the first one; all this as long as fewer than `2^31` checks in a row have failed.
-/
theorem monitor_backs_off (n : Nat) :
    if out.checkOk cl (out.afterRounds env cl config n (out.started env cl s)) = true then
      out.sleepBefore env cl config s (n + 1)
        = some (min (Duration.fromSecs config.intervalSeconds) maxBackoff)
    else
      trailingFailures (out.outcomes env cl config (n + 1) (out.started env cl s)) < 2 ^ 31 →
        ∃ d d', out.sleepBefore env cl config s n = some d ∧
          out.sleepBefore env cl config s (n + 1) = some d' ∧
          (Duration.fromSecs config.intervalSeconds).Within d' ∧ min d maxBackoff ≤ d' ∧
          (0 < n ∨ Duration.fromSecs config.intervalSeconds ≤ maxBackoff → d ≤ d') := by
  split
  · next hok =>
      have hcount : (out.afterRounds env cl config (n + 1)
          (out.started env cl s)).2.consecutiveFailures = 0 := by
        rw [out.afterRounds_succ]
        exact (Prod.mk.inj (Surroundings.vitals_round_of_ok hok)).2
      exact monitorDelay_of_zero config hcount
  · next hfail =>
      intro hfew
      obtain ⟨d, d', hd, hd', hle, hwithin, hwithin'⟩ :=
        monitorDelay_failure out env cl config s n (Bool.eq_false_iff.mpr hfail) hfew
      cases n with
      | zero =>
          refine ⟨_, d', rfl, hd', hwithin', hwithin'.1, fun h => ?_⟩
          have hbase := h.resolve_left (Nat.lt_irrefl 0)
          exact (min_eq_left hbase).symm.trans_le hwithin'.1
      | succ n => exact ⟨d, d', hd, hd', hwithin', (min_le_left _ _).trans hle, fun _ => hle⟩

end

end McpFederation
