import Mathlib.Data.Nat.Log
import WorldClock.Binary64

/-!
# Rounding keeps the order

A greater real rounds to bits that are no smaller, and greater bits stand for more units. So if a
product is finite, then so is that of any smaller factors: whether a product overflows has to be
looked at only for the largest factors there can be (`Binary64.isFinite_mul_of_le`).

Of two reals that are rounded on one grid that is plain. If the grids differ then some power of two
lies between the reals, and it rounds to itself.
-/

namespace WorldClock

theorem roundHalfEven_le (num den : Nat) : roundHalfEven num den ≤ num / den + 1 := by
  simp only [roundHalfEven]
  split
  · omega
  split
  · omega
  split <;> omega

theorem div_le_roundHalfEven (num den : Nat) : num / den ≤ roundHalfEven num den := by
  simp only [roundHalfEven]
  split
  · omega
  split
  · omega
  split <;> omega

theorem roundHalfEven_mono {num num' : Nat} (h : num ≤ num') (den : Nat) :
    roundHalfEven num den ≤ roundHalfEven num' den := by
  obtain hlt | hsame := Nat.lt_or_eq_of_le (Nat.div_le_div_right (c := den) h)
  · calc roundHalfEven num den
        ≤ num / den + 1 := roundHalfEven_le num den
      _ ≤ num' / den := hlt
      _ ≤ roundHalfEven num' den := div_le_roundHalfEven num' den
  · have hrest : num % den ≤ num' % den := by
      have hnum := Nat.div_add_mod num den
      have hnum' := Nat.div_add_mod num' den
      rw [hsame] at hnum
      omega
    simp only [roundHalfEven, hsame]
    grind

namespace Binary64

theorem nearestUnits_eq (num den : Nat) :
    nearestUnits num den = min ((Nat.log2 (num / den) - 52) * 2 ^ 52 +
      roundHalfEven num (den * 2 ^ (Nat.log2 (num / den) - 52))) infinityBits := rfl

theorem nearestUnits_le_infinityBits (num den : Nat) : nearestUnits num den ≤ infinityBits :=
  Nat.min_le_right _ _

theorem div_shifted_lt (num den : Nat) :
    num / (den * 2 ^ (Nat.log2 (num / den) - 52)) < 2 ^ 53 := by
  rw [← Nat.div_div_eq_div_mul]
  generalize num / den = q
  rw [Nat.div_lt_iff_lt_mul (Nat.two_pow_pos _), ← Nat.pow_add]
  refine Nat.lt_of_lt_of_le Nat.lt_log2_self ?_
  exact Nat.pow_le_pow_right (by decide) (by omega)

/-- What is below a power of two rounds to bits that are bounded accordingly. -/
theorem nearestUnits_le {num den power : Nat} (hpower : 53 ≤ power) (h : num < den * 2 ^ power) :
    nearestUnits num den ≤ (power - 51) * 2 ^ 52 := by
  have hden : 0 < den := Nat.pos_of_ne_zero fun hzero => by simp [hzero] at h
  have hquotient : num / den < 2 ^ power := by
    rw [Nat.div_lt_iff_lt_mul hden, Nat.mul_comm]
    exact h
  have hlog : Nat.log2 (num / den) ≤ power - 1 := by
    by_cases hzero : num / den = 0
    · simp [hzero]
    · have := (Nat.log2_lt hzero).mpr hquotient
      omega
  have hround : roundHalfEven num (den * 2 ^ (Nat.log2 (num / den) - 52)) ≤ 2 * 2 ^ 52 :=
    Nat.le_trans (roundHalfEven_le _ _) (div_shifted_lt num den)
  have habove : (Nat.log2 (num / den) - 52) * 2 ^ 52 ≤ (power - 53) * 2 ^ 52 :=
    Nat.mul_le_mul_right _ (by omega)
  have hsplit : (power - 53) * 2 ^ 52 + 2 * 2 ^ 52 = (power - 51) * 2 ^ 52 := by
    rw [← Nat.add_mul, show power - 53 + 2 = power - 51 by omega]
  calc nearestUnits num den
      ≤ (Nat.log2 (num / den) - 52) * 2 ^ 52 +
          roundHalfEven num (den * 2 ^ (Nat.log2 (num / den) - 52)) := Nat.min_le_left _ _
    _ ≤ (power - 53) * 2 ^ 52 + 2 * 2 ^ 52 := Nat.add_le_add habove hround
    _ = (power - 51) * 2 ^ 52 := hsplit

/-- What is not below a power of two rounds to bits that are bounded accordingly, or to infinity. -/
theorem le_nearestUnits (power : Nat) {num den : Nat} (hpower : 52 ≤ power) (hden : 0 < den)
    (h : den * 2 ^ power ≤ num) :
    min ((power - 51) * 2 ^ 52) infinityBits ≤ nearestUnits num den := by
  have hquotient : 2 ^ power ≤ num / den := by
    rw [Nat.le_div_iff_mul_le hden, Nat.mul_comm]
    exact h
  have hne : num / den ≠ 0 := by
    have := Nat.two_pow_pos power
    omega
  have hlog : power ≤ Nat.log2 (num / den) := (Nat.le_log2 hne).mpr hquotient
  have hshifted : 2 ^ 52 ≤ num / (den * 2 ^ (Nat.log2 (num / den) - 52)) := by
    rw [← Nat.div_div_eq_div_mul, Nat.le_div_iff_mul_le (Nat.two_pow_pos _), ← Nat.pow_add,
      show 52 + (Nat.log2 (num / den) - 52) = Nat.log2 (num / den) by omega]
    exact Nat.log2_self_le hne
  have hround := Nat.le_trans hshifted (div_le_roundHalfEven _ _)
  have habove : (power - 52) * 2 ^ 52 ≤ (Nat.log2 (num / den) - 52) * 2 ^ 52 :=
    Nat.mul_le_mul_right _ (by omega)
  have hsplit : (power - 51) * 2 ^ 52 = (power - 52) * 2 ^ 52 + 2 ^ 52 := by
    rw [show power - 51 = power - 52 + 1 by omega, Nat.add_mul, Nat.one_mul]
  rw [nearestUnits_eq, hsplit]
  refine Nat.le_min.mpr ⟨?_, Nat.min_le_right _ _⟩
  exact Nat.le_trans (Nat.min_le_left _ _) (Nat.add_le_add habove hround)

theorem nearestUnits_mono {num num' den : Nat} (hden : 0 < den) (h : num ≤ num') :
    nearestUnits num den ≤ nearestUnits num' den := by
  have hquotient : num / den ≤ num' / den := Nat.div_le_div_right h
  have hlog : Nat.log2 (num / den) ≤ Nat.log2 (num' / den) := by
    rw [Nat.log2_eq_log_two, Nat.log2_eq_log_two]
    exact Nat.log_mono_right hquotient
  by_cases hgrid : Nat.log2 (num' / den) - 52 ≤ Nat.log2 (num / den) - 52
  · have hsame : Nat.log2 (num / den) - 52 = Nat.log2 (num' / den) - 52 :=
      Nat.le_antisymm (Nat.sub_le_sub_right hlog 52) hgrid
    rw [nearestUnits_eq, nearestUnits_eq, hsame]
    refine Nat.le_min.mpr ⟨Nat.le_trans (Nat.min_le_left _ _) ?_, Nat.min_le_right _ _⟩
    exact Nat.add_le_add_left (roundHalfEven_mono h _) _
  · -- The power of two where the finer grid ends lies between the two.
    have hpower : 53 ≤ Nat.log2 (num' / den) := by omega
    have hne : num' / den ≠ 0 := by
      intro hzero
      rw [hzero] at hpower
      exact absurd hpower (by decide)
    have hbelow : num < den * 2 ^ Nat.log2 (num' / den) := by
      rw [Nat.mul_comm, ← Nat.div_lt_iff_lt_mul hden]
      refine Nat.lt_of_lt_of_le Nat.lt_log2_self ?_
      exact Nat.pow_le_pow_right (by decide) (by omega)
    have habove : den * 2 ^ Nat.log2 (num' / den) ≤ num' := by
      rw [Nat.mul_comm, ← Nat.le_div_iff_mul_le hden]
      exact Nat.log2_self_le hne
    calc nearestUnits num den
        ≤ min ((Nat.log2 (num' / den) - 51) * 2 ^ 52) infinityBits :=
          Nat.le_min.mpr ⟨nearestUnits_le hpower hbelow, nearestUnits_le_infinityBits _ _⟩
      _ ≤ nearestUnits num' den := le_nearestUnits _ (by omega) hden habove

theorem infinityBits_lt : infinityBits < 2 ^ 63 := by decide

theorem magnitudeBits_ofMagnitudeBits {sign : Bool} {magnitude : Nat}
    (h : magnitude ≤ infinityBits) :
    (ofMagnitudeBits sign magnitude).magnitudeBits = magnitude := by
  have hlt := Nat.lt_of_le_of_lt h infinityBits_lt
  cases sign with
  | true =>
    simp only [magnitudeBits, ofMagnitudeBits, if_true, UInt64.toNat_ofNat']
    omega
  | false =>
    simp only [magnitudeBits, ofMagnitudeBits, Bool.false_eq_true, if_false, UInt64.toNat_ofNat']
    omega

/-! ### Units -/

theorem fraction_lt (x : Binary64) : x.fraction < 2 ^ 52 := Nat.mod_lt _ (by decide)

theorem magnitudeBits_eq (x : Binary64) :
    x.magnitudeBits = 2 ^ 52 * x.exponentField + x.fraction := by
  have hfraction : x.fraction = x.magnitudeBits % 2 ^ 52 := by
    rw [fraction, magnitudeBits]
    omega
  rw [hfraction, exponentField, Nat.div_add_mod]

theorem mantissa_lt (x : Binary64) : x.mantissa < 2 ^ 53 := by
  have hfraction := x.fraction_lt
  rw [mantissa]
  split <;> omega

theorem units_mono {x y : Binary64} (h : x.magnitudeBits ≤ y.magnitudeBits) :
    x.units ≤ y.units := by
  have hx := x.magnitudeBits_eq
  have hy := y.magnitudeBits_eq
  have hxfraction := x.fraction_lt
  have hyfraction := y.fraction_lt
  obtain hlt | hsame : x.exponentField < y.exponentField ∨ x.exponentField = y.exponentField := by
    omega
  · have hmantissa : 2 ^ 52 ≤ y.mantissa := by
      rw [mantissa, if_neg (Nat.ne_of_gt (Nat.zero_lt_of_lt hlt))]
      exact Nat.le_add_right _ _
    suffices hpower : x.units ≤ 2 ^ 52 * 2 ^ y.shift by
      exact Nat.le_trans hpower (Nat.mul_le_mul_right _ hmantissa)
    by_cases hzero : x.exponentField = 0
    · calc x.units = x.fraction * 2 ^ 0 := by rw [units, mantissa, shift, if_pos hzero, hzero]
        _ ≤ 2 ^ 52 * 2 ^ y.shift :=
          Nat.mul_le_mul (Nat.le_of_lt hxfraction)
            (Nat.pow_le_pow_right (by decide) y.shift.zero_le)
    · calc x.units ≤ 2 ^ 53 * 2 ^ x.shift := Nat.mul_le_mul_right _ (Nat.le_of_lt x.mantissa_lt)
        _ = 2 ^ 52 * 2 ^ (x.shift + 1) := by
          rw [Nat.pow_succ' (n := x.shift), ← Nat.mul_assoc]
        _ ≤ 2 ^ 52 * 2 ^ y.shift :=
          Nat.mul_le_mul_left _ (Nat.pow_le_pow_right (by decide) (by simp only [shift]; omega))
  · have hmantissa : x.mantissa ≤ y.mantissa := by
      rw [mantissa, mantissa, hsame]
      split <;> omega
    rw [units, units, shift, shift, hsame]
    exact Nat.mul_le_mul_right _ hmantissa

/-! ### Products -/

theorem isFinite_of_isPositive {x : Binary64} (h : x.isPositive = true) : x.isFinite = true := by
  simp only [isPositive, Bool.and_eq_true] at h
  exact h.1

theorem isFinite_iff (x : Binary64) : x.isFinite = true ↔ x.magnitudeBits < infinityBits := by
  simp [isFinite]

theorem magnitudeBits_ofNat (n : Nat) :
    (ofNat n).magnitudeBits = nearestUnits (n * 2 ^ unitPower) 1 :=
  magnitudeBits_ofMagnitudeBits (nearestUnits_le_infinityBits _ _)

theorem magnitudeBits_ofNat_mono {m n : Nat} (h : m ≤ n) :
    (ofNat m).magnitudeBits ≤ (ofNat n).magnitudeBits := by
  rw [magnitudeBits_ofNat, magnitudeBits_ofNat]
  exact nearestUnits_mono Nat.one_pos (Nat.mul_le_mul_right _ h)

theorem mul_of_isFinite {x y : Binary64} (hx : x.isFinite = true) (hy : y.isFinite = true) :
    x.mul y = ofMagnitudeBits (x.negative != y.negative)
      (nearestUnits (x.units * y.units) (2 ^ unitPower)) := by
  have hxbits := (isFinite_iff x).mp hx
  have hybits := (isFinite_iff y).mp hy
  have hnan : (x.isNaN || y.isNaN) = false := by
    simp only [isNaN, Bool.or_eq_false_iff, decide_eq_false_iff_not]
    exact ⟨Nat.not_lt_of_gt hxbits, Nat.not_lt_of_gt hybits⟩
  have hinfinite : (x.isInfinite || y.isInfinite) = false := by
    simp only [isInfinite, Bool.or_eq_false_iff, decide_eq_false_iff_not]
    exact ⟨Nat.ne_of_lt hxbits, Nat.ne_of_lt hybits⟩
  simp only [mul, hnan, hinfinite, Bool.false_eq_true, if_false]

theorem magnitudeBits_mul {x y : Binary64} (hx : x.isFinite = true) (hy : y.isFinite = true) :
    (x.mul y).magnitudeBits = nearestUnits (x.units * y.units) (2 ^ unitPower) := by
  rw [mul_of_isFinite hx hy]
  exact magnitudeBits_ofMagnitudeBits (nearestUnits_le_infinityBits _ _)

theorem isFinite_infinity : ∀ sign, (infinity sign).isFinite = false := by decide

/-- The factors of a finite product are finite. -/
theorem isFinite_of_isFinite_mul {x y : Binary64} (h : (x.mul y).isFinite = true) :
    x.isFinite = true ∧ y.isFinite = true := by
  have hnan : nan.isFinite = false := by decide
  rw [mul] at h
  split at h
  · rw [hnan] at h
    cases h
  · next hneither =>
    split at h
    · split at h
      · rw [hnan] at h
        cases h
      · rw [isFinite_infinity] at h
        cases h
    · next hboth =>
      simp only [isNaN, isInfinite, Bool.or_eq_true, decide_eq_true_eq, not_or] at hneither hboth
      rw [isFinite_iff, isFinite_iff]
      omega

/-- A product stays finite if its factors get smaller. -/
theorem isFinite_mul_of_le {x x' y y' : Binary64} (h : (x'.mul y').isFinite = true)
    (hx : x.magnitudeBits ≤ x'.magnitudeBits) (hy : y.magnitudeBits ≤ y'.magnitudeBits) :
    (x.mul y).isFinite = true := by
  obtain ⟨hfinite, hfinite'⟩ := isFinite_of_isFinite_mul h
  rw [isFinite_iff, magnitudeBits_mul hfinite hfinite'] at h
  rw [isFinite_iff] at hfinite hfinite'
  have hxfinite := (isFinite_iff x).mpr (Nat.lt_of_le_of_lt hx hfinite)
  have hyfinite := (isFinite_iff y).mpr (Nat.lt_of_le_of_lt hy hfinite')
  rw [isFinite_iff, magnitudeBits_mul hxfinite hyfinite]
  refine Nat.lt_of_le_of_lt (nearestUnits_mono (Nat.two_pow_pos _) ?_) h
  exact Nat.mul_le_mul (units_mono hx) (units_mono hy)

end Binary64

end WorldClock
