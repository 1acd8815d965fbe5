import WorldClock.Proofs.Manager.Courses

/-!
# Seasons in machine arithmetic

A calendar counts in natural numbers, and its lengths are positive by construction. Here the same is
worked out with what a machine has: numbers of limited width, division that has no result where
the divisor is zero, and a table of seasons that ends. For the calendar of any settings without a
fault each of these steps has a result, and it is the one of the calendar.
-/

namespace WorldClock

def Season.next : Season → Season
  | .spring => .summer
  | .summer => .autumn
  | .autumn => .winter
  | .winter => .spring

namespace Season

theorem next_ne (s : Season) : s.next ≠ s := by cases s <;> decide

theorem getElem?_all (i : Fin perYear) : all[i.val]? = some (ofIndex i) := by
  revert i
  decide

theorem ofIndex_add_one (i : Fin perYear) : ofIndex (i + 1) = (ofIndex i).next := by
  revert i
  decide

/-- The season after a whole number of seasons. -/
def after (n : Nat) : Season := ofIndex (Fin.ofNat perYear n)

theorem getElem?_all_mod (n : Nat) : all[n % perYear]? = some (after n) :=
  getElem?_all (Fin.ofNat perYear n)

theorem after_succ (n : Nat) : after (n + 1) = (after n).next := by
  rw [after, after, ← ofIndex_add_one]
  congr 1
  ext
  simp only [Fin.ofNat, Fin.val_add, Nat.mod_add_mod]
  rfl

theorem after_add_perYear (n : Nat) : after (n + perYear) = after n := by
  rw [after, after]
  congr 1
  ext
  exact Nat.add_mod_right n perYear

end Season

namespace Calendar

/-- The greatest number of nanoseconds that is worked with. -/
def widest : Nat := 2 ^ 128 - 1

def remainder? (value period : Nat) : Option Nat :=
  if period = 0 then none else some (value % period)

def quotient? (value period : Nat) : Option Nat :=
  if period = 0 then none else some (value / period)

/-- The part of the current period that has passed, if the period has a length. -/
def cycleFraction? (value period : Nat) : Option Binary64 :=
  (remainder? value period).map fun rest =>
    let fraction := (Binary64.ofNat rest).div (Binary64.ofNat period)
    if fraction.lt Binary64.one then fraction else Binary64.zero

/-- The nanoseconds of a year, or the greatest number. -/
def yearNanos (seasonLength : Duration) : Nat :=
  min (seasonLength.nanos * Season.perYear) widest

/-- The season and its progress for any length of a season, if no step on the way is without a
result. -/
def season? (seasonLength gameTime : Duration) : Option (Season × Binary64) := do
  let intoYear ← remainder? gameTime.nanos (yearNanos seasonLength)
  let index ← quotient? intoYear seasonLength.nanos
  let season ← Season.all[index]?
  let progress ← cycleFraction? intoYear seasonLength.nanos
  pure (season, progress)

def sunPosition? (dayLength gameTime : Duration) : Option Binary64 :=
  cycleFraction? gameTime.nanos dayLength.nanos

theorem remainder?_eq_some {value period : Nat} (h : 0 < period) :
    remainder? value period = some (value % period) :=
  if_neg (Nat.ne_of_gt h)

theorem quotient?_eq_some {value period : Nat} (h : 0 < period) :
    quotient? value period = some (value / period) :=
  if_neg (Nat.ne_of_gt h)

theorem cycleFraction?_eq_some {value period : Nat} (h : 0 < period) :
    cycleFraction? value period = some (cycleFraction value period) := by
  rw [cycleFraction?, remainder?_eq_some h]
  rfl

theorem cycleFraction_mod (value period : Nat) :
    cycleFraction (value % period) period = cycleFraction value period := by
  rw [cycleFraction, Nat.mod_mod, cycleFraction]

/-- A year of the longest seasons has less than `2 ^ 96` nanoseconds. -/
theorem yearNanos_eq (seasonLength : Duration) :
    yearNanos seasonLength = seasonLength.nanos * Season.perYear := by
  refine Nat.min_eq_left ?_
  calc seasonLength.nanos * Season.perYear
      ≤ Duration.maxNanos * Season.perYear := Nat.mul_le_mul_right _ seasonLength.nanos_le
    _ ≤ widest := by decide

variable (c : Calendar) (t : Duration)

theorem season_eq_after : c.season t = Season.after (t.nanos / c.seasonLength.nanos) := by
  rw [season, Season.after]
  congr 1
  ext
  exact Nat.mod_mul_right_div_self _ _ _

theorem seasonProgress_eq :
    c.seasonProgress t =
      cycleFraction (t.nanos % c.seasonLength.nanos) c.seasonLength.nanos := by
  rw [seasonProgress, ← cycleFraction_mod (c.intoYear t), intoYear, Nat.mod_mul_right_mod]

theorem season?_eq_some :
    season? c.seasonLength t = some (c.season t, c.seasonProgress t) := by
  have hyear : 0 < c.seasonLength.nanos * Season.perYear :=
    Nat.mul_pos c.seasonLength_pos (by decide)
  have hseason : Season.all[c.intoYear t / c.seasonLength.nanos]? = some (c.season t) :=
    Season.getElem?_all ⟨_, c.intoYear_div_lt t⟩
  rw [season?, yearNanos_eq, remainder?_eq_some hyear]
  change (quotient? (c.intoYear t) c.seasonLength.nanos).bind _ = _
  rw [quotient?_eq_some c.seasonLength_pos, Option.bind_some, hseason,
    cycleFraction?_eq_some c.seasonLength_pos]
  rfl

theorem sunPosition?_eq_some : sunPosition? c.dayLength t = some (c.sunPosition t) :=
  cycleFraction?_eq_some c.dayLength_pos

/-- The seasons of a calendar, from nanosecond to nanosecond. -/
structure TurnsSeasons : Prop where
  /-- No step of the arithmetic is without a result, and the length of a year is not cut. -/
  year_le : c.seasonLength.nanos * Season.perYear ≤ widest
  season?_eq : ∀ t, season? c.seasonLength t = some (c.season t, c.seasonProgress t)
  sunPosition?_eq : ∀ t, sunPosition? c.dayLength t = some (c.sunPosition t)
  season_eq : ∀ t : Duration,
    Season.all[t.nanos / c.seasonLength.nanos % Season.perYear]? = some (c.season t)
  progress_eq : ∀ t, c.seasonProgress t =
    cycleFraction (t.nanos % c.seasonLength.nanos) c.seasonLength.nanos
  first : c.season Duration.zero = .spring
  change_iff : ∀ t t' : Duration, t'.nanos = t.nanos + 1 →
    (c.season t' ≠ c.season t ↔ c.seasonLength.nanos ∣ t'.nanos)
  change : ∀ t t' : Duration, t'.nanos = t.nanos + 1 → c.seasonLength.nanos ∣ t'.nanos →
    c.season t' = (c.season t).next
  year : ∀ t t' : Duration, t'.nanos = t.nanos + Season.perYear * c.seasonLength.nanos →
    c.season t' = c.season t ∧ c.seasonProgress t' = c.seasonProgress t

/-- One nanosecond later it is the next season if a whole number of seasons has passed, or else
the same one. -/
theorem season_of_nanos_eq_add_one {t t' : Duration} (h : t'.nanos = t.nanos + 1) :
    c.season t' =
      if c.seasonLength.nanos ∣ t'.nanos then (c.season t).next else c.season t := by
  rw [season_eq_after, season_eq_after, h, Nat.succ_div]
  split
  · exact Season.after_succ _
  · rfl

theorem season_year {t t' : Duration}
    (h : t'.nanos = t.nanos + Season.perYear * c.seasonLength.nanos) :
    c.season t' = c.season t ∧ c.seasonProgress t' = c.seasonProgress t := by
  constructor
  · rw [season_eq_after, season_eq_after, h, Nat.add_mul_div_right _ _ c.seasonLength_pos,
      Season.after_add_perYear]
  · rw [seasonProgress_eq, seasonProgress_eq, h, Nat.add_mul_mod_self_right]

theorem turnsSeasons : c.TurnsSeasons where
  year_le := by
    rw [← yearNanos_eq]
    exact Nat.min_le_right _ _
  season?_eq := c.season?_eq_some
  sunPosition?_eq := c.sunPosition?_eq_some
  season_eq t := by rw [season_eq_after, Season.getElem?_all_mod]
  progress_eq := c.seasonProgress_eq
  first := by
    rw [season_eq_after]
    change Season.after (0 / _) = _
    rw [Nat.zero_div]
    rfl
  change_iff t t' h := by
    rw [c.season_of_nanos_eq_add_one h]
    split
    · next hdvd => exact iff_of_true (Season.next_ne _) hdvd
    · next hdvd => exact iff_of_false (fun hne => hne rfl) hdvd
  change t t' h hdvd := by rw [c.season_of_nanos_eq_add_one h, if_pos hdvd]
  year _ _ h := c.season_year h

theorem lengths_of_ofLengths {day season : Duration} {c : Calendar}
    (h : ofLengths day season = .ok c) : c.dayLength = day ∧ c.seasonLength = season := by
  rw [ofLengths] at h
  split at h
  · split at h
    · cases h
      exact ⟨rfl, rfl⟩
    · cases h
  · cases h

end Calendar

/-- Settings without a fault have a calendar of their lengths, and its seasons turn without a step
that falls back on anything. -/
theorem ClockSettings.calendar_turnsSeasons (clock : ClockSettings) (h : clock.fault? = none) :
    ∃ c, clock.calendar = .ok c ∧ c.dayLength = clock.dayLength ∧
      c.seasonLength = clock.seasonLength ∧ c.TurnsSeasons := by
  obtain ⟨c, hc⟩ := calendar_eq_ok (Option.map_eq_none_iff.mp h)
  obtain ⟨hday, hseason⟩ := Calendar.lengths_of_ofLengths hc
  exact ⟨c, hc, hday, hseason, c.turnsSeasons⟩

/-- The standard settings, with ninety days in a season. -/
theorem ClockSettings.calendar_turnsSeasons_standard :
    standard.fault? = none ∧ ∃ c, standard.calendar = .ok c ∧
      c.dayLength = standard.dayLength ∧ c.seasonLength = standard.seasonLength ∧
      c.TurnsSeasons :=
  ⟨by decide, calendar_turnsSeasons standard (by decide)⟩

end WorldClock
