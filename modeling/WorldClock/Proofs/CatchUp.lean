import WorldClock.CatchUp

/-!
# Planning and dating back

A plan has one unit for each whole tick interval since the mark of the pause, and dating an instant
back by some units moves it by as many tick intervals. So a plan from a mark that was dated back
starts with the units that were still owed, and loses no part of an interval beyond them.
-/

namespace WorldClock

theorem Instant.nanos_elapsedUntil (t later : Instant) :
    (t.elapsedUntil later).nanos = (later.nanos - t.nanos).toNat := by
  have hmin := t.min_le
  have hmax := later.le_max
  rw [elapsedUntil, Duration.nanos_ofNanos]
  refine Nat.min_eq_left (Nat.le_trans (m := 16544868105600000000000) ?_ (by decide))
  simp only [minNanos, maxNanos] at hmin hmax
  omega

namespace Instant

theorem nanos_shift? {t t' : Instant} {n : Int} (h : t.shift? n = some t') :
    t'.nanos = t.nanos + n := by
  rw [shift?, ofNanos?] at h
  split at h
  · cases h
    rfl
  · cases h

theorem shift?_eq_none {t : Instant} {n : Int} (h : t.shift? n = none) :
    ¬(minNanos ≤ t.nanos + n ∧ t.nanos + n ≤ maxNanos) := by
  rw [shift?, ofNanos?] at h
  split at h
  · cases h
  · next hout => exact hout

/-- An instant is dated back by the units, or by the longest step if they are more than that. -/
theorem nanos_backDated_min {now : Instant} {interval : Duration} {units : Count}
    (hmin : minNanos ≤ now.nanos - interval.nanos * units.toNat) :
    (now.backDated interval units).nanos =
      now.nanos - (min (interval.nanos * units.toNat) greatestStep : Nat) := by
  have hmax := now.le_max
  have hstep : min (interval.nanos * units.toNat) greatestStep ≤ interval.nanos * units.toNat :=
    Nat.min_le_left _ _
  rw [backDated]
  cases hshift : now.shift? (-(min (interval.nanos * units.toNat) greatestStep : Nat)) with
  | none =>
    have hout := shift?_eq_none hshift
    omega
  | some t' =>
    have hnanos := nanos_shift? hshift
    rw [Option.getD_some]
    omega

/-- An instant is dated back exactly, if the way back is not too long and there is such an
instant. -/
theorem nanos_backDated {now : Instant} {interval : Duration} {units : Count}
    (hstep : interval.nanos * units.toNat ≤ greatestStep)
    (hmin : minNanos ≤ now.nanos - interval.nanos * units.toNat) :
    (now.backDated interval units).nanos = now.nanos - interval.nanos * units.toNat := by
  rw [nanos_backDated_min hmin, Nat.min_eq_left hstep, Int.natCast_mul]

/-- The time since an instant that was dated back exactly is longer by the way back. -/
theorem toNat_sub_nanos_backDated {now later : Instant} {interval : Duration} {units : Count}
    (hstep : interval.nanos * units.toNat ≤ greatestStep)
    (hmin : minNanos ≤ now.nanos - interval.nanos * units.toNat) (hlater : now ≤ later) :
    (later.nanos - (now.backDated interval units).nanos).toNat =
      (later.nanos - now.nanos).toNat + interval.nanos * units.toNat := by
  have hle : now.nanos ≤ later.nanos := hlater
  rw [nanos_backDated hstep hmin]
  omega

/-- A time that lies some units back is not later than the instant that is dated back by them. -/
theorem le_backDated {n : Int} {now : Instant} {interval : Duration} {units : Count}
    (hmin : minNanos ≤ n) (h : n + (units.toNat * interval.nanos : Nat) ≤ now.nanos) :
    n ≤ (now.backDated interval units).nanos := by
  have hstep : (min (interval.nanos * units.toNat) greatestStep : Nat) ≤
      interval.nanos * units.toNat := Nat.min_le_left _ _
  rw [Nat.mul_comm] at h
  rw [nanos_backDated_min (by omega)]
  omega

theorem backDated_le (now : Instant) (interval : Duration) (units : Count) :
    now.backDated interval units ≤ now := by
  change (now.backDated interval units).nanos ≤ now.nanos
  rw [backDated]
  cases hshift : now.shift? (-(min (interval.nanos * units.toNat) greatestStep : Nat)) with
  | none => exact now.min_le
  | some t' =>
    have hnanos := nanos_shift? hshift
    rw [Option.getD_some]
    omega

end Instant

namespace CatchUpPlan

theorem units_between (pausedAt now : Instant) (interval : Duration) :
    (between pausedAt now interval).units.toNat =
      min ((now.nanos - pausedAt.nanos).toNat / interval.nanos) Count.greatest := by
  rw [between, Count.toNat_ofNat, Instant.nanos_elapsedUntil]

/-- Between two instants there are less than `2 ^ 64` milliseconds. -/
theorem units_between_of_le (pausedAt now : Instant) {interval : Duration}
    (h : nanosPerMilli ≤ interval.nanos) :
    (between pausedAt now interval).units.toNat =
      (now.nanos - pausedAt.nanos).toNat / interval.nanos := by
  have hmin := pausedAt.min_le
  have hmax := now.le_max
  rw [units_between]
  refine Nat.min_eq_left ?_
  calc (now.nanos - pausedAt.nanos).toNat / interval.nanos
      ≤ (now.nanos - pausedAt.nanos).toNat / nanosPerMilli := Nat.div_le_div_left h (by decide)
    _ ≤ 16544868105600000000000 / nanosPerMilli := by
        refine Nat.div_le_div_right ?_
        simp only [Instant.minNanos, Instant.maxNanos] at hmin hmax
        omega
    _ ≤ Count.greatest := by decide

/-- A plan from a mark that was dated back has the units that were owed, and those of the time
since. -/
theorem units_between_backDated {stoppedAt now : Instant} {interval : Duration} {units : Count}
    (h : nanosPerMilli ≤ interval.nanos)
    (hstep : interval.nanos * units.toNat ≤ Instant.greatestStep)
    (hmin : Instant.minNanos ≤ stoppedAt.nanos - interval.nanos * units.toNat)
    (hnow : stoppedAt ≤ now) :
    (between (stoppedAt.backDated interval units) now interval).units.toNat =
      units.toNat + (now.nanos - stoppedAt.nanos).toNat / interval.nanos := by
  have hpos : 0 < interval.nanos := Nat.lt_of_lt_of_le (by decide) h
  rw [units_between_of_le _ _ h, Instant.toNat_sub_nanos_backDated hstep hmin hnow,
    Nat.add_mul_div_left _ _ hpos, Nat.add_comm]

/-- The units of a plan take no longer than the pause. -/
theorem units_mul_le (pausedAt now : Instant) (interval : Duration) :
    (between pausedAt now interval).units.toNat * interval.nanos ≤
      (now.nanos - pausedAt.nanos).toNat := by
  rw [units_between]
  calc min ((now.nanos - pausedAt.nanos).toNat / interval.nanos) Count.greatest * interval.nanos
      ≤ (now.nanos - pausedAt.nanos).toNat / interval.nanos * interval.nanos :=
        Nat.mul_le_mul_right _ (Nat.min_le_left _ _)
    _ ≤ (now.nanos - pausedAt.nanos).toNat := Nat.div_mul_le_self _ _

end CatchUpPlan

end WorldClock
