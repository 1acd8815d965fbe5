import WorldClock.Proofs.CatchUp

/-!
# Dating back by the units of a plan

Dating an instant back by some units and planning from there are inverse to each other as long as
two limits are kept: the way back takes at most `Instant.greatestStep` nanoseconds, and the units
fit in a count. The first is the one that matters. A way back that is longer is cut, even where
there is an instant at its end, and then the plan has fewer units than were owed. The second is
reached only by intervals below a millisecond, of which no clock has one.
-/

namespace WorldClock

namespace CatchUpPlan

variable {now later : Instant} {interval : Duration} {units : Count}

theorem nanos_missed_backDated
    (hmin : Instant.minNanos ≤ now.nanos - interval.nanos * units.toNat) :
    (between (now.backDated interval units) now interval).missed.nanos =
      min (interval.nanos * units.toNat) Instant.greatestStep := by
  change ((now.backDated interval units).elapsedUntil now).nanos = _
  rw [Instant.nanos_elapsedUntil, Instant.nanos_backDated_min hmin]
  omega

/-- The units of the plan are those of the way back, however short it was cut. -/
theorem units_backDated (hpos : 0 < interval.nanos)
    (hmin : Instant.minNanos ≤ now.nanos - interval.nanos * units.toNat) :
    (between (now.backDated interval units) now interval).units.toNat =
      min (interval.nanos * units.toNat) Instant.greatestStep / interval.nanos := by
  have hgap : (now.nanos - (now.backDated interval units).nanos).toNat =
      min (interval.nanos * units.toNat) Instant.greatestStep := by
    rw [Instant.nanos_backDated_min hmin]
    omega
  rw [units_between, hgap]
  refine Nat.min_eq_left ?_
  calc min (interval.nanos * units.toNat) Instant.greatestStep / interval.nanos
      ≤ interval.nanos * units.toNat / interval.nanos :=
        Nat.div_le_div_right (Nat.min_le_left _ _)
    _ = units.toNat := Nat.mul_div_cancel_left _ hpos
    _ ≤ Count.greatest := units.toNat_le_greatest

/-- No unit is lost exactly if the way back is not cut. -/
theorem units_backDated_eq_iff (hpos : 0 < interval.nanos)
    (hmin : Instant.minNanos ≤ now.nanos - interval.nanos * units.toNat) :
    (between (now.backDated interval units) now interval).units = units ↔
      interval.nanos * units.toNat ≤ Instant.greatestStep := by
  rw [← UInt64.toNat_inj, units_backDated hpos hmin]
  rcases Nat.lt_or_ge Instant.greatestStep (interval.nanos * units.toNat) with hlong | hfits
  · have hcut : Instant.greatestStep / interval.nanos < units.toNat := Nat.div_lt_of_lt_mul hlong
    rw [Nat.min_eq_right (Nat.le_of_lt hlong)]
    omega
  · rw [Nat.min_eq_left hfits, Nat.mul_div_cancel_left _ hpos]
    exact iff_of_true rfl hfits

/-- Time that goes by after the way back adds its own whole intervals, up to the greatest count. -/
theorem units_backDated_later (hpos : 0 < interval.nanos)
    (hmin : Instant.minNanos ≤ now.nanos - interval.nanos * units.toNat)
    (hfits : interval.nanos * units.toNat ≤ Instant.greatestStep) (hlater : now ≤ later) :
    (between (now.backDated interval units) later interval).units.toNat =
      min (units.toNat + (later.nanos - now.nanos).toNat / interval.nanos) Count.greatest := by
  rw [units_between, Instant.toNat_sub_nanos_backDated hfits hmin hlater,
    Nat.add_mul_div_left _ _ hpos, Nat.add_comm]

/-- Where the way back leads to an instant, planning from there gives back the time and the units
exactly if they are at most `Instant.greatestStep` nanoseconds, and then a plan at a later instant
has the units of the time between as well. -/
theorem between_backDated_eq_iff (now : Instant) (interval : Duration) (units : Count)
    (hpos : 0 < interval.nanos)
    (hmin : Instant.minNanos ≤ now.nanos - interval.nanos * units.toNat) :
    let mark := now.backDated interval units
    ((between mark now interval).missed.nanos = interval.nanos * units.toNat ↔
        interval.nanos * units.toNat ≤ Instant.greatestStep) ∧
      ((between mark now interval).units = units ↔
        interval.nanos * units.toNat ≤ Instant.greatestStep) ∧
      (interval.nanos * units.toNat ≤ Instant.greatestStep → ∀ later, now ≤ later →
        (between mark later interval).units.toNat =
            min (units.toNat + (later.nanos - now.nanos).toNat / interval.nanos) Count.greatest ∧
          (nanosPerMilli ≤ interval.nanos → (between mark later interval).units.toNat =
            units.toNat + (later.nanos - now.nanos).toNat / interval.nanos)) := by
  refine ⟨?_, units_backDated_eq_iff hpos hmin, fun hfits later hlater =>
    ⟨units_backDated_later hpos hmin hfits hlater,
      fun hmilli => units_between_backDated hmilli hfits hmin hlater⟩⟩
  rw [nanos_missed_backDated hmin]
  omega

/-- Fifteen tenths of a second, and a quarter of a second later. -/
theorem between_backDated_tenths :
    let tenth := Duration.ofMillis 100
    let mark := Instant.epoch.backDated tenth 15
    (between mark Instant.epoch tenth).missed.nanos = 1500000000 ∧
      (between mark Instant.epoch tenth).units = 15 ∧
      (between mark (Instant.clamp 250000000) tenth).units.toNat = 17 := by
  have hinverse := between_backDated_eq_iff Instant.epoch (Duration.ofMillis 100) 15
    (by decide) (by decide)
  have hlater := hinverse.2.2 (by decide) (Instant.clamp 250000000) (by decide)
  exact ⟨(hinverse.1.mpr (by decide)).trans (by decide), hinverse.2.1.mpr (by decide),
    (hlater.2 (by decide)).trans (by decide)⟩

/-- Of two intervals of five thousand million seconds one is lost, though there is an instant that
far back. And a plan over all of real time that counts in nanoseconds stops at the greatest count,
though it starts from a mark that owes nothing. -/
theorem between_backDated_cut :
    (let now := Instant.clamp 1700000000000000000
     let interval := Duration.ofMillis 5000000000000
     let plan := between (now.backDated interval 2) now interval
     Instant.minNanos ≤ now.nanos - interval.nanos * 2 ∧
       plan.missed.nanos ≠ interval.nanos * 2 ∧ plan.units = 1) ∧
      (let nano := Duration.ofNanos 1
       let plan := between (Instant.earliest.backDated nano 0) Instant.latest nano
       plan.units.toNat = Count.greatest ∧
         Count.greatest < (Instant.latest.nanos - Instant.earliest.nanos).toNat) := by
  decide

end CatchUpPlan

end WorldClock
