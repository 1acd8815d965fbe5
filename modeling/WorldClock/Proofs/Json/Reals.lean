import WorldClock.Proofs.Json.Values
import WorldClock.Proofs.Magnitude

/-!
# Reals read back

The text of a finite real reads back as some real, though with many digits not always as the same
one: the reader rounds twice. What has to be shown is that the text is a proper numeral, which needs
a digit other than zero in front, and that the reader does not take it for too large.

The latter is close. The greatest real is written `1.7976931348623157e308`, and with an eight as the
last digit, which is the text of a decimal that rounds to the same real, the reader would refuse it.
So the greatest real is looked at on its own (`Binary64.onGrid?_greatest`). All decimals that round
to other reals are small enough to be read whatever their digits (`Json.ScalesBelow`).
-/

namespace WorldClock

namespace Json

/-! ### The significand -/

theorem absorb_le {significand : Nat} (h : significand ≤ Count.greatest) (ds : List Digit) :
    (absorb significand ds).1 ≤ Count.greatest := by
  induction ds generalizing significand with
  | nil => exact h
  | cons d ds ih =>
    rw [absorb]
    split
    · next hmore => exact ih hmore
    · exact h

theorem le_absorb (significand : Nat) (ds : List Digit) :
    significand ≤ (absorb significand ds).1 := by
  induction ds generalizing significand with
  | nil => exact Nat.le_refl _
  | cons d ds ih =>
    rw [absorb]
    split
    · exact Nat.le_trans (by omega) (ih _)
    · exact Nat.le_refl _

theorem length_absorb_le (significand : Nat) (ds : List Digit) :
    (absorb significand ds).2.length ≤ ds.length := by
  induction ds generalizing significand with
  | nil => exact Nat.le_refl 0
  | cons d ds ih =>
    rw [absorb]
    split
    · exact Nat.le_succ_of_le (ih _)
    · exact Nat.le_refl _

/-- The digits that a significand does not take are no part of its value. -/
theorem absorb_mul_le (significand : Nat) (ds : List Digit) :
    (absorb significand ds).1 * 10 ^ (absorb significand ds).2.length ≤
      significand * 10 ^ ds.length + Digits.value ds := by
  induction ds generalizing significand with
  | nil => exact Nat.le_refl _
  | cons d ds ih =>
    rw [absorb]
    split
    · refine Nat.le_trans (ih _) (Nat.le_of_eq ?_)
      rw [Digits.value_cons, List.length_cons, Nat.pow_succ]
      grind
    · exact Nat.le_add_right _ _

/-! ### Scaling -/

/-- A significand of at most `limit` with a power of ten is read if it is less than `bound`. -/
structure ScalesBelow (limit bound : Nat) : Prop where
  bound_le : bound ≤ 10 ^ (greatestPower + 1)
  isFinite : ∀ power ≤ greatestPower,
    ((Binary64.ofNat (min limit ((bound - 1) / 10 ^ power))).mul
      (Binary64.ofNat (10 ^ power))).isFinite = true

/-- Up to some power of ten the greatest significand decides, and beyond it the bound does. -/
theorem scalesBelow_of_turn {limit bound : Nat} (turn : Nat)
    (hbound : bound ≤ 10 ^ (greatestPower + 1))
    (hturn : ((Binary64.ofNat limit).mul (Binary64.ofNat (10 ^ turn))).isFinite = true)
    (hbeyond : ∀ power ≤ greatestPower, turn < power →
      ((Binary64.ofNat (min limit ((bound - 1) / 10 ^ power))).mul
        (Binary64.ofNat (10 ^ power))).isFinite = true) : ScalesBelow limit bound := by
  refine ⟨hbound, fun power hpower => ?_⟩
  by_cases hle : power ≤ turn
  · exact Binary64.isFinite_mul_of_le hturn
      (Binary64.magnitudeBits_ofNat_mono (Nat.min_le_left _ _))
      (Binary64.magnitudeBits_ofNat_mono (Nat.pow_le_pow_right (by decide) hle))
  · exact hbeyond power hpower (Nat.lt_of_not_le hle)

/-- What is less than this can be read from up to seventeen digits. -/
def shortBound : Nat := 17976931348623158 * 10 ^ 292

/-- What is less than this can be read from as many digits as there are. -/
def longBound : Nat := (2 ^ 53 - 2) * 2 ^ 971 + 1

theorem scalesBelow_shortBound : ScalesBelow (10 ^ 17) shortBound :=
  scalesBelow_of_turn 291 (by decide +kernel) (by decide +kernel) (by decide +kernel)

theorem scalesBelow_longBound : ScalesBelow Count.greatest longBound :=
  scalesBelow_of_turn 288 (by decide +kernel) (by decide +kernel) (by decide +kernel)

theorem scale?_isSome {limit bound : Nat} (h : ScalesBelow limit bound) {significand : Nat}
    (hlimit : significand ≤ limit) {power : Int} (hpower : power ≤ greatestPower)
    (hbound : 0 ≤ power → significand * 10 ^ power.toNat < bound) :
    (scale? significand power).isSome = true := by
  rw [scale?]
  split
  · rfl
  · next hnonneg =>
    have hquotient : significand ≤ (bound - 1) / 10 ^ power.toNat := by
      rw [Nat.le_div_iff_mul_le (Nat.pow_pos (by decide))]
      exact Nat.le_sub_one_of_lt (hbound (Int.not_lt.mp hnonneg))
    have hfinite := Binary64.isFinite_mul_of_le (h.isFinite power.toNat (by omega))
      (Binary64.magnitudeBits_ofNat_mono (Nat.le_min.mpr ⟨hlimit, hquotient⟩)) (Nat.le_refl _)
    simp only [hfinite, if_true, Option.isSome_some]

end Json

/-! ### The shortest decimal -/

namespace Binary64

theorem units_pos {x : Binary64} (h : 0 < x.magnitudeBits) : 0 < x.units := by
  have hbits := x.magnitudeBits_eq
  have hmantissa : 0 < x.mantissa := by
    rw [mantissa]
    split <;> omega
  exact Nat.mul_pos hmantissa (Nat.two_pow_pos _)

/-- The whole part of a magnitude times `10 ^ 340`. -/
def scaledWhole (x : Binary64) : Nat := x.scaledUnits / 2 ^ unitPower

def scaledPlaces (x : Binary64) : Nat := (Decimal.digits x.scaledWhole).length

theorem onGrid?_eq_some {tie : Tie} {x : Binary64} {step c : Nat}
    (h : x.onGrid? tie step = some c) :
    (c = x.scaledWhole / step ∨ c = x.scaledWhole / step + 1) ∧ x.readsBack (c * step) = true := by
  simp only [onGrid?] at h
  split at h
  · cases h
  · next hbelow _ =>
    cases h
    exact ⟨.inl rfl, hbelow⟩
  · next _ habove =>
    cases h
    exact ⟨.inr rfl, habove⟩
  · next hbelow habove =>
    have hchoice : c = x.scaledWhole / step ∨ c = x.scaledWhole / step + 1 := by
      repeat' split at h
      all_goals first | exact .inl (Option.some.inj h).symm | exact .inr (Option.some.inj h).symm
    refine ⟨hchoice, ?_⟩
    obtain rfl | rfl := hchoice
    · exact hbelow
    · exact habove

end Binary64

/-- The decimal that is `coefficient * 10 ^ power` when it is scaled by `10 ^ 340`. -/
def Scientific.ofScaled (coefficient power : Nat) : Scientific :=
  ⟨Decimal.dropTrailingZeros (Decimal.digits coefficient),
    (power + (Decimal.digits coefficient).length : Nat) - (Binary64.decimalScale : Int) - 1⟩

namespace Binary64

/-- The shortest decimal lies on some grid of at most seventeen places; if there is none with a
decimal that reads back then all digits are written. -/
theorem shortest_cases (tie : Tie) (x : Binary64) :
    (∃ n c, 1 ≤ n ∧ n ≤ 17 ∧ x.onGrid? tie (10 ^ (x.scaledPlaces - n)) = some c ∧
        x.shortest tie = .ofScaled c (x.scaledPlaces - n)) ∨
      ((∀ n, 1 ≤ n → n ≤ 17 → x.onGrid? tie (10 ^ (x.scaledPlaces - n)) = none) ∧
        x.shortest tie = .ofScaled x.scaledWhole 0) := by
  obtain ⟨found, hfound⟩ : ∃ found, (List.range' 1 17).findSome? (fun n =>
      (x.onGrid? tie (10 ^ (x.scaledPlaces - n))).map fun c => (c, x.scaledPlaces - n)) = found :=
    ⟨_, rfl⟩
  have hshortest : x.shortest tie = .ofScaled (found.getD (x.scaledWhole, 0)).1
      (found.getD (x.scaledWhole, 0)).2 := by
    rw [← hfound]
    rfl
  rw [hshortest]
  cases found with
  | some choice =>
    obtain ⟨n, hn, hattempt⟩ := List.exists_of_findSome?_eq_some hfound
    obtain ⟨c, hgrid, rfl⟩ := Option.map_eq_some_iff.mp hattempt
    obtain ⟨hone, hbound⟩ := List.mem_range'_1.mp hn
    exact .inl ⟨n, c, hone, by omega, hgrid, rfl⟩
  | none =>
    refine .inr ⟨fun n hone hbound => ?_, rfl⟩
    have hattempt := List.findSome?_eq_none_iff.mp hfound n
      (List.mem_range'_1.mpr ⟨hone, by omega⟩)
    exact Option.map_eq_none_iff.mp hattempt

theorem scaledWhole_pos {x : Binary64} (h : 0 < x.units) : 0 < x.scaledWhole := by
  have hscale : 2 ^ unitPower ≤ 10 ^ decimalScale := by decide +kernel
  refine Nat.div_pos (Nat.le_trans hscale ?_) (Nat.two_pow_pos _)
  exact Nat.le_mul_of_pos_left _ h

theorem onGrid?_bounded {tie : Tie} {x : Binary64} (hx : 0 < x.units) {n c : Nat} (hone : 1 ≤ n)
    (hmost : n ≤ 17) (h : x.onGrid? tie (10 ^ (x.scaledPlaces - n)) = some c) :
    0 < c ∧ c ≤ 10 ^ 17 := by
  have hlow := Decimal.pow_length_digits_le (scaledWhole_pos hx)
  have hhigh := Decimal.lt_pow_length_digits x.scaledWhole
  have hpos : 0 < x.scaledWhole / 10 ^ (x.scaledPlaces - n) := by
    refine Nat.div_pos (Nat.le_trans (Nat.pow_le_pow_right (by decide) ?_) hlow)
      (Nat.pow_pos (by decide))
    exact Nat.sub_le_sub_left hone _
  have hlt : x.scaledWhole / 10 ^ (x.scaledPlaces - n) < 10 ^ 17 := by
    rw [Nat.div_lt_iff_lt_mul (Nat.pow_pos (by decide)), ← Nat.pow_add]
    refine Nat.lt_of_lt_of_le hhigh (Nat.pow_le_pow_right (by decide) ?_)
    rw [scaledPlaces]
    omega
  have hchoice := (onGrid?_eq_some h).1
  omega

/-! ### The size of the shortest decimal -/

/-- The shift of the greatest finite numbers. -/
def greatestShift : Nat := 2045

/-- The units of the greatest finite number but one. -/
def lesserUnits : Nat := (2 ^ 53 - 2) * 2 ^ greatestShift

/-- The greatest finite number, or its negative. -/
def greatest (isNegative : Bool) : Binary64 := ofMagnitudeBits isNegative (infinityBits - 1)

theorem eq_ofMagnitudeBits (x : Binary64) : x = ofMagnitudeBits x.negative x.magnitudeBits := by
  have hbits := UInt64.toNat_lt x.bits
  obtain ⟨bits⟩ := x
  simp only [ofMagnitudeBits, mk.injEq]
  refine UInt64.toNat_inj.mp ?_
  simp only [negative, magnitudeBits, UInt64.toNat_ofNat', decide_eq_true_eq] at *
  split <;> omega

theorem eq_greatest_or_units_le {x : Binary64} (h : x.isFinite = true) :
    (∃ isNegative, x = greatest isNegative) ∨ x.units ≤ lesserUnits := by
  have hfinite := (isFinite_iff x).mp h
  by_cases hgreatest : x.magnitudeBits = infinityBits - 1
  · exact .inl ⟨x.negative, by rw [greatest, ← hgreatest]; exact x.eq_ofMagnitudeBits⟩
  · have hle : x.magnitudeBits ≤ (ofMagnitudeBits false (infinityBits - 2)).magnitudeBits := by
      rw [magnitudeBits_ofMagnitudeBits (Nat.sub_le _ _)]
      omega
    have hunits : (ofMagnitudeBits false (infinityBits - 2)).units = lesserUnits := by
      decide +kernel
    exact .inr (hunits ▸ units_mono hle)

theorem shift_le {x : Binary64} (h : x.isFinite = true) : x.shift ≤ greatestShift := by
  have hfinite := (isFinite_iff x).mp h
  have hbits := x.magnitudeBits_eq
  simp only [infinityBits, shift, greatestShift] at *
  omega

theorem le_of_readsBack {x : Binary64} {candidate : Nat} (h : x.readsBack candidate = true) :
    2 * (candidate * 2 ^ unitPower) ≤ (2 * x.units + 2 ^ x.shift) * 10 ^ decimalScale := by
  have hhigh : 4 * candidate * 2 ^ unitPower ≤ 4 * x.scaledUnits + x.gapAbove := by
    simp only [readsBack] at h
    split at h
    · exact (of_decide_eq_true h).2
    · exact Nat.le_of_lt (of_decide_eq_true h).2
  simp only [scaledUnits, gapAbove] at hhigh
  generalize 2 ^ unitPower = unit at *
  generalize 10 ^ decimalScale = scale at *
  grind

theorem lt_of_readsBack {x : Binary64} (hx : x.isFinite = true) (hunits : x.units ≤ lesserUnits)
    {candidate : Nat} (h : x.readsBack candidate = true) :
    candidate < Json.shortBound * 10 ^ decimalScale := by
  have hshift : 2 ^ x.shift ≤ 2 ^ greatestShift := Nat.pow_le_pow_right Nat.two_pos (shift_le hx)
  have hbound : 2 * lesserUnits + 2 ^ greatestShift < Json.shortBound * (2 * 2 ^ unitPower) := by
    decide +kernel
  refine Nat.lt_of_mul_lt_mul_right (a := 2 * 2 ^ unitPower) ?_
  calc candidate * (2 * 2 ^ unitPower)
      = 2 * (candidate * 2 ^ unitPower) := Nat.mul_left_comm _ _ _
    _ ≤ (2 * x.units + 2 ^ x.shift) * 10 ^ decimalScale := le_of_readsBack h
    _ ≤ (2 * lesserUnits + 2 ^ greatestShift) * 10 ^ decimalScale :=
      Nat.mul_le_mul_right _ (Nat.add_le_add (Nat.mul_le_mul_left 2 hunits) hshift)
    _ < Json.shortBound * (2 * 2 ^ unitPower) * 10 ^ decimalScale :=
      Nat.mul_lt_mul_of_pos_right hbound (Nat.pow_pos (by decide))
    _ = Json.shortBound * 10 ^ decimalScale * (2 * 2 ^ unitPower) :=
      Nat.mul_right_comm _ _ _

theorem scaledWhole_lt {x : Binary64} (hunits : x.units ≤ lesserUnits) :
    x.scaledWhole < Json.longBound * 10 ^ decimalScale := by
  have hbound : lesserUnits < Json.longBound * 2 ^ unitPower := by decide +kernel
  rw [scaledWhole, Nat.div_lt_iff_lt_mul (Nat.two_pow_pos _)]
  calc x.scaledUnits = x.units * 10 ^ decimalScale := rfl
    _ ≤ lesserUnits * 10 ^ decimalScale := Nat.mul_le_mul_right _ hunits
    _ < Json.longBound * 2 ^ unitPower * 10 ^ decimalScale :=
      Nat.mul_lt_mul_of_pos_right hbound (Nat.pow_pos (by decide))
    _ = Json.longBound * 10 ^ decimalScale * 2 ^ unitPower := Nat.mul_right_comm _ _ _

theorem scaledPlaces_greatest (isNegative : Bool) : (greatest isNegative).scaledPlaces = 649 := by
  have hlow : 10 ^ 648 ≤ (greatest isNegative).scaledWhole := by
    cases isNegative <;> decide +kernel
  have hhigh : (greatest isNegative).scaledWhole < 10 ^ (648 + 1) := by
    cases isNegative <;> decide +kernel
  refine Nat.le_antisymm (Decimal.length_digits_le hhigh) ?_
  have hlt := Nat.lt_of_le_of_lt hlow (Decimal.lt_pow_length_digits _)
  exact (Nat.pow_lt_pow_iff_right (by decide : 1 < 10)).mp hlt

/-- Seventeen places are enough for the greatest number, and of the two decimals there that read
back the lesser one is taken. -/
theorem onGrid?_greatest (isNegative : Bool) :
    (greatest isNegative).onGrid? Json.realLayout.tie (10 ^ (649 - 17)) ≠ none ∧
      ∀ n ≤ 17, ∀ c ∈ (greatest isNegative).onGrid? Json.realLayout.tie (10 ^ (649 - n)),
        c * 10 ^ (649 - n) < Json.shortBound * 10 ^ decimalScale := by
  cases isNegative <;> decide +kernel

/-- The shortest decimal is small enough for the number of its digits to be read. -/
theorem shortest_bounded {x : Binary64} (hx : x.isFinite = true) (hpos : 0 < x.units) :
    ∃ c power limit bound, x.shortest Json.realLayout.tie = .ofScaled c power ∧ 0 < c ∧
      Json.ScalesBelow limit bound ∧ min c Count.greatest ≤ limit ∧
      c * 10 ^ power < bound * 10 ^ decimalScale := by
  obtain ⟨n, c, hone, hmost, hgrid, hshortest⟩ | ⟨hnone, hshortest⟩ :=
    shortest_cases Json.realLayout.tie x
  · obtain ⟨hc, hdigits⟩ := onGrid?_bounded hpos hone hmost hgrid
    refine ⟨c, _, _, _, hshortest, hc, Json.scalesBelow_shortBound,
      Nat.le_trans (Nat.min_le_left _ _) hdigits, ?_⟩
    obtain ⟨isNegative, rfl⟩ | hunits := eq_greatest_or_units_le hx
    · rw [scaledPlaces_greatest] at hgrid ⊢
      exact (onGrid?_greatest isNegative).2 n hmost c hgrid
    · exact lt_of_readsBack hx hunits (onGrid?_eq_some hgrid).2
  · -- All digits are written, which are too many to be read if the number is the greatest one.
    obtain ⟨isNegative, rfl⟩ | hunits := eq_greatest_or_units_le hx
    · have hgrid := hnone 17 (by decide) (Nat.le_refl 17)
      rw [scaledPlaces_greatest] at hgrid
      exact absurd hgrid (onGrid?_greatest isNegative).1
    · refine ⟨x.scaledWhole, 0, _, _, hshortest, scaledWhole_pos hpos, Json.scalesBelow_longBound,
        Nat.min_le_right _ _, ?_⟩
      rw [Nat.pow_zero, Nat.mul_one]
      exact scaledWhole_lt hunits

end Binary64

namespace Layout

theorem toInt_exponentOf (l : Layout) (e : Int) : (l.exponentOf e).toInt = e := by
  rw [exponentOf]
  split
  · simp only [Exponent.toInt, Decimal.value_digits]
    omega
  · split <;> simp only [Exponent.toInt, Decimal.value_digits] <;> omega

theorem digits_exponentOf (l : Layout) (e : Int) : (l.exponentOf e).digits ≠ [] := by
  rw [exponentOf]
  split <;> exact Decimal.digits_ne_nil _

end Layout

/-- A numeral without an exponent and with a short whole part. -/
structure Numeral.IsPlain (n : Numeral) : Prop extends n.IsProper where
  exponent_eq : n.exponent = none
  length_whole : n.whole.length ≤ 16

namespace Json

/-! ### Reading what is written -/

/-- A number is written as a plain numeral, or with one digit before the point and an exponent. -/
theorem realLayout_cases {x : Binary64} (hzero : x.isZero = false) {d : Digit} {ds : List Digit}
    (hdigits : (x.shortest realLayout.tie).digits = d :: ds) (hd : d ≠ 0) :
    (realLayout.numeral x).IsPlain ∨ realLayout.numeral x = ⟨x.negative, [d], ds,
      some (realLayout.exponentOf (x.shortest realLayout.tie).exponent)⟩ := by
  simp only [Layout.numeral, hzero, Bool.false_eq_true, if_false,
    show realLayout.positional = some (-5, 16) from rfl, decide_eq_true_eq]
  generalize x.shortest realLayout.tie = s at *
  split
  · next hpositional =>
    left
    by_cases hneg : s.exponent < 0
    · simp only [Layout.positionalParts, hneg, if_true]
      exact ⟨⟨.inl rfl, by intro e he; cases he⟩, rfl, by simp⟩
    · simp only [Layout.positionalParts, hneg, if_false]
      refine ⟨⟨.inr ⟨d, ?_⟩, by intro e he; cases he⟩, rfl, ?_⟩
      · rw [hdigits]
        exact ⟨_, rfl, hd⟩
      · simp only [List.length_append, List.length_take, List.length_replicate]
        omega
  · right
    rw [hdigits]
    rfl

theorem numeralReal?_of_isPlain {n : Numeral} (hn : n.IsPlain) :
    (numeralReal? n).isSome = true := by
  have hskipped := Nat.le_trans (length_absorb_le 0 n.whole) hn.length_whole
  have hwhole : (absorb 0 n.whole).1 ≤ Count.greatest := absorb_le (Nat.zero_le _) _
  have hlimit := absorb_le hwhole n.fraction
  have hbound : Count.greatest * 10 ^ 16 < longBound := by decide +kernel
  simp only [numeralReal?, Option.isSome_map, hn.exponent_eq, Option.map_none, Option.getD_none]
  split
  · rfl
  · refine scale?_isSome scalesBelow_longBound hlimit (by simp only [greatestPower]; omega) ?_
    intro hnonneg
    refine Nat.lt_of_le_of_lt (Nat.mul_le_mul hlimit ?_) hbound
    exact Nat.pow_le_pow_right (by decide) (by omega)

theorem absorb_digit : ∀ d : Digit, absorb 0 [d] = (d.val, []) := by decide

/-- The significand is taken from the front of a coefficient, so that with its power of ten it is no
greater than the coefficient with its own. -/
theorem scale?_of_taken {limit bound : Nat} (hscales : ScalesBelow limit bound)
    {value zeros power : Nat} (hlimit : min (value * 10 ^ zeros) Count.greatest ≤ limit)
    (hbound : value * 10 ^ zeros * 10 ^ power < bound * 10 ^ Binary64.decimalScale)
    {significand dropped : Nat} (hpos : 0 < significand) (hle : significand ≤ Count.greatest)
    (htaken : significand * 10 ^ dropped ≤ value) {reach : Int}
    (hreach : reach + Binary64.decimalScale = (dropped + (zeros + power) : Nat)) :
    (scale? significand reach).isSome = true := by
  have hwhole : significand ≤ value * 10 ^ zeros :=
    calc significand
        ≤ significand * 10 ^ dropped := Nat.le_mul_of_pos_right _ (Nat.pow_pos (by decide))
      _ ≤ value := htaken
      _ ≤ value * 10 ^ zeros := Nat.le_mul_of_pos_right _ (Nat.pow_pos (by decide))
  have hbelow : 0 ≤ reach → significand * 10 ^ reach.toNat < bound := by
    intro hnonneg
    have hpowers : reach.toNat + Binary64.decimalScale = dropped + (zeros + power) := by omega
    refine Nat.lt_of_mul_lt_mul_right (a := 10 ^ Binary64.decimalScale) ?_
    calc significand * 10 ^ reach.toNat * 10 ^ Binary64.decimalScale
        = significand * 10 ^ dropped * 10 ^ (zeros + power) := by
          rw [Nat.mul_assoc, ← Nat.pow_add, hpowers, Nat.pow_add, Nat.mul_assoc]
      _ ≤ value * 10 ^ (zeros + power) := Nat.mul_le_mul_right _ htaken
      _ = value * 10 ^ zeros * 10 ^ power := by rw [Nat.pow_add, ← Nat.mul_assoc]
      _ < bound * 10 ^ Binary64.decimalScale := hbound
  have hreachable : reach ≤ greatestPower := by
    by_contra hover
    have hleast : 10 ^ (greatestPower + 1) ≤ significand * 10 ^ reach.toNat :=
      Nat.le_trans (Nat.pow_le_pow_right (by decide) (by omega)) (Nat.le_mul_of_pos_left _ hpos)
    exact absurd (hbelow (by omega)) (Nat.not_lt.mpr (Nat.le_trans hscales.bound_le hleast))
  refine scale?_isSome hscales ?_ hreachable hbelow
  exact Nat.le_trans (Nat.le_min.mpr ⟨hwhole, hle⟩) hlimit

theorem numeralReal?_ofScaled {c power limit bound : Nat} (hscales : ScalesBelow limit bound)
    (hlimit : min c Count.greatest ≤ limit)
    (hbound : c * 10 ^ power < bound * 10 ^ Binary64.decimalScale) {d : Digit} {ds : List Digit}
    (hdigits : (Scientific.ofScaled c power).digits = d :: ds) (hd : d ≠ 0) (isNegative : Bool)
    {e : Exponent} (he : e.toInt = (Scientific.ofScaled c power).exponent) :
    (numeralReal? ⟨isNegative, [d], ds, some e⟩).isSome = true := by
  obtain ⟨zeros, hzeros⟩ := Decimal.exists_append_zeros (Decimal.digits c)
  rw [show Decimal.dropTrailingZeros (Decimal.digits c) = d :: ds from hdigits] at hzeros
  have hvalue : c = Digits.value (d :: ds) * 10 ^ zeros := by
    rw [← Decimal.value_append_zeros, ← hzeros, Decimal.value_digits]
  have hplaces : (Decimal.digits c).length = ds.length + 1 + zeros := by
    rw [hzeros, List.length_append, List.length_replicate, List.length_cons]
  have hpos : 0 < (absorb d.val ds).1 :=
    Nat.lt_of_lt_of_le (Nat.pos_of_ne_zero fun hzero => hd (Fin.ext hzero)) (le_absorb d.val ds)
  have hle : (absorb d.val ds).1 ≤ Count.greatest :=
    absorb_le (Nat.le_trans (Nat.le_of_lt d.isLt) (by decide)) ds
  have htaken := absorb_mul_le d.val ds
  have hlength := length_absorb_le d.val ds
  rw [← Digits.value_cons] at htaken
  rw [hvalue] at hlimit hbound
  simp only [Scientific.ofScaled, hplaces] at he
  simp only [numeralReal?, absorb_digit, Numeral.isWhole, Option.isNone_some, Bool.and_false,
    Bool.false_eq_true, false_and, if_false, Option.map_some, Option.getD_some, he,
    List.length_nil, Option.isSome_map]
  exact scale?_of_taken hscales hlimit hbound hpos hle htaken (by omega)

/-- A finite real is written as a number, and as one that is not too large for its reader. -/
theorem realLayout_readable {x : Binary64} (h : x.isFinite = true) :
    (realLayout.numeral x).IsProper ∧ (numeralReal? (realLayout.numeral x)).isSome = true := by
  suffices hplain : (realLayout.numeral x).IsPlain ∨ (realLayout.numeral x).IsProper ∧
      (numeralReal? (realLayout.numeral x)).isSome = true by
    exact hplain.elim (fun hn => ⟨hn.toIsProper, numeralReal?_of_isPlain hn⟩) id
  cases hzero : x.isZero with
  | true =>
    left
    rw [Layout.numeral, if_pos hzero]
    exact ⟨⟨.inl rfl, by intro e he; cases he⟩, rfl, by simp⟩
  | false =>
    have hbits : 0 < x.magnitudeBits := Nat.pos_of_ne_zero (of_decide_eq_false hzero)
    obtain ⟨c, power, limit, bound, hshortest, hc, hscales, hlimit, hbound⟩ :=
      Binary64.shortest_bounded h (Binary64.units_pos hbits)
    obtain ⟨d, ds, hdigits, hd⟩ := Decimal.dropTrailingZeros_digits hc
    obtain hplain | hnumeral := realLayout_cases hzero (by rw [hshortest]; exact hdigits) hd
    · exact .inl hplain
    · rw [hnumeral]
      refine .inr ⟨⟨.inr ⟨d, [], rfl, hd⟩, ?_⟩, ?_⟩
      · intro e heq
        cases heq
        exact Layout.digits_exponentOf _ _
      · refine numeralReal?_ofScaled hscales hlimit hbound hdigits hd _ ?_
        rw [Layout.toInt_exponentOf, hshortest]

theorem isWritten_ofReal {x : Binary64} (h : x.isFinite = true) : (ofReal x).IsWritten := by
  simp only [ofReal, h, if_true, IsWritten]
  exact (realLayout_readable h).1

theorem toReal?_ofReal_isSome {x : Binary64} (h : x.isFinite = true) :
    (toReal? (ofReal x)).isSome = true := by
  simp only [ofReal, h, if_true, toReal?]
  exact (realLayout_readable h).2

end Json

end WorldClock
