import WorldClock.Decimal.Digits

/-!
# Double-precision numbers

A `Binary64` is the 64 bits of a double-precision floating-point number. Dilation factors and
calendar fractions are such numbers. Arithmetic is exact rational arithmetic followed by one
rounding, `Binary64.nearest`, so that every operation can be reasoned about over the natural
numbers: a finite magnitude is a whole number of *units*, where one unit is the least positive
number, `2 ^ -1074`.
-/

namespace WorldClock

/-- `num / den` rounded to the nearest natural number, a half going to the even neighbour. -/
def roundHalfEven (num den : Nat) : Nat :=
  let quotient := num / den
  let twice := 2 * (num % den)
  if twice < den then quotient
  else if den < twice then quotient + 1
  else if quotient % 2 = 0 then quotient else quotient + 1

/-- `num / den` rounded to the nearest natural number, a half going up. -/
def roundHalfUp (num den : Nat) : Nat :=
  (2 * num + den) / (2 * den)

/-- A double-precision number, by its bits. -/
structure Binary64 where
  bits : UInt64
deriving DecidableEq, Repr, Inhabited

namespace Binary64

def unitPower : Nat := 1074

/-- The bits of infinity: exponent field full, fraction empty. -/
def infinityBits : Nat := 2047 * 2 ^ 52

def negative (x : Binary64) : Bool :=
  decide (2 ^ 63 ≤ x.bits.toNat)

/-- All bits but the sign. For finite numbers they grow with the magnitude. -/
def magnitudeBits (x : Binary64) : Nat :=
  x.bits.toNat % 2 ^ 63

def exponentField (x : Binary64) : Nat :=
  x.magnitudeBits / 2 ^ 52

def fraction (x : Binary64) : Nat :=
  x.bits.toNat % 2 ^ 52

def isNaN (x : Binary64) : Bool :=
  decide (infinityBits < x.magnitudeBits)

def isInfinite (x : Binary64) : Bool :=
  decide (x.magnitudeBits = infinityBits)

def isFinite (x : Binary64) : Bool :=
  decide (x.magnitudeBits < infinityBits)

def isZero (x : Binary64) : Bool :=
  decide (x.magnitudeBits = 0)

/-- The significant bits of a finite number, with the leading one that is not stored. -/
def mantissa (x : Binary64) : Nat :=
  if x.exponentField = 0 then x.fraction else 2 ^ 52 + x.fraction

/-- How far the significant bits of a finite number stand above the unit. -/
def shift (x : Binary64) : Nat :=
  x.exponentField - 1

def units (x : Binary64) : Nat :=
  x.mantissa * 2 ^ x.shift

def ofMagnitudeBits (isNegative : Bool) (magnitude : Nat) : Binary64 :=
  ⟨UInt64.ofNat ((if isNegative then 2 ^ 63 else 0) + magnitude)⟩

/-- The bits of the number nearest to `num / den` units, of two equally near ones the one with an
even last bit; infinity when the magnitude is too large. -/
def nearestUnits (num den : Nat) : Nat :=
  let above := Nat.log2 (num / den) - 52
  min (above * 2 ^ 52 + roundHalfEven num (den * 2 ^ above)) infinityBits

/-- The bits of the number nearest to `num / den`. -/
def nearest (num den : Nat) : Nat :=
  nearestUnits (num * 2 ^ unitPower) den

def ofNat (n : Nat) : Binary64 :=
  ofMagnitudeBits false (nearest n 1)

def zero : Binary64 := ⟨0⟩

def one : Binary64 := ⟨0x3FF0000000000000⟩

def infinity (isNegative : Bool) : Binary64 :=
  ofMagnitudeBits isNegative infinityBits

def nan : Binary64 := ⟨0x7FF8000000000000⟩

def neg (x : Binary64) : Binary64 :=
  ofMagnitudeBits (!x.negative) x.magnitudeBits

def mul (x y : Binary64) : Binary64 :=
  let sign := x.negative != y.negative
  if x.isNaN || y.isNaN then nan
  else if x.isInfinite || y.isInfinite then
    if x.isZero || y.isZero then nan else infinity sign
  else ofMagnitudeBits sign (nearestUnits (x.units * y.units) (2 ^ unitPower))

def div (x y : Binary64) : Binary64 :=
  let sign := x.negative != y.negative
  if x.isNaN || y.isNaN then nan
  else if x.isInfinite then if y.isInfinite then nan else infinity sign
  else if y.isInfinite then ofMagnitudeBits sign 0
  else if y.isZero then if x.isZero then nan else infinity sign
  else ofMagnitudeBits sign (nearest x.units y.units)

/-- A whole number that orders the numbers as their values do; both zeros have the key zero. -/
def key (x : Binary64) : Int :=
  if x.negative then -(x.magnitudeBits : Int) else (x.magnitudeBits : Int)

/-- Strictly less. Nothing is less or greater than what is not a number. -/
def lt (x y : Binary64) : Bool :=
  !x.isNaN && !y.isNaN && decide (x.key < y.key)

def isPositive (x : Binary64) : Bool :=
  x.isFinite && zero.lt x

/-- A finite magnitude rounded to a whole number, a half going up. -/
def roundToNat (x : Binary64) : Nat :=
  roundHalfUp x.units (2 ^ unitPower)

/-- Decimal exponents beyond this bound make a number with few digits zero or infinite. -/
def decimalBound : Nat := 400

/-- The number nearest to `coefficient * 10 ^ exponent`. -/
def ofDecimal (isNegative : Bool) (coefficient : Nat) (exponent : Int) : Binary64 :=
  let reach := exponent + (Decimal.digits coefficient).length
  if coefficient = 0 ∨ reach < -(decimalBound : Int) then ofMagnitudeBits isNegative 0
  else if (decimalBound : Int) < reach then infinity isNegative
  else ofMagnitudeBits isNegative
    (nearest (coefficient * 10 ^ exponent.toNat) (10 ^ (-exponent).toNat))

def ofNumeral (n : Numeral) : Binary64 :=
  let asked := (n.exponent.map Exponent.toInt).getD 0
  ofDecimal n.negative (Digits.value (n.whole ++ n.fraction)) (asked - n.fraction.length)

end Binary64

end WorldClock
