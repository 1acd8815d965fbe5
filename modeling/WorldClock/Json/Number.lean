import WorldClock.Binary64
import WorldClock.Count
import WorldClock.Decimal.Layout
import WorldClock.Json.Basic

/-!
# Numbers in JSON

Whole numbers are exact: a sign and digits, no point, no exponent, and no minus sign before a zero.

A real number is read from a 64-bit *significand* and a power of ten. The significand takes digits
as long as they fit; whole digits beyond that only raise the power of ten, and fraction digits
beyond that are dropped. The significand is rounded to a double-precision number and multiplied or
divided once by a power of ten, so a number with many digits may come out beside the nearest one. A
number too large for double precision is refused; one too small becomes zero.

Reals are written with the fewest digits that identify them. What is not finite is written `null`.
-/

namespace WorldClock.Json

/-- Reals are positional from `0.00001` up to `10 ^ 16`, keep a point, and mark exponents with a
sign. -/
def realLayout : Layout where
  positional := some (-5, 16)
  keepPoint := true
  plusSign := true
  tie := .toEven

def ofReal (x : Binary64) : Json :=
  if x.isFinite then .number (realLayout.numeral x) else .null

def ofNat (n : Nat) : Json := .number (Numeral.ofNat n)

def ofCount (n : Count) : Json := ofNat n.toNat

def ofInt (n : Int) : Json := .number (Numeral.ofInt n)

def numeralInt? (n : Numeral) : Option Int :=
  let magnitude := Digits.value n.whole
  if !n.isWhole || (n.negative && magnitude == 0) then none
  else some (if n.negative then -(magnitude : Int) else (magnitude : Int))

def toIntBetween? (low high : Int) (j : Json) : Option Int :=
  match j with
  | .number n => (numeralInt? n).filter fun i => decide (low ≤ i ∧ i ≤ high)
  | _ => none

def toNatUpTo? (high : Nat) (j : Json) : Option Nat :=
  (toIntBetween? 0 high j).map Int.toNat

def toCount? (j : Json) : Option Count :=
  (toNatUpTo? Count.greatest j).map Count.ofNat

/-- Adds digits to a significand as long as it stays a 64-bit number; the digits left over come
second. -/
def absorb : Nat → List Digit → Nat × List Digit
  | significand, [] => (significand, [])
  | significand, d :: ds =>
    let more := 10 * significand + d.val
    if more ≤ Count.greatest then absorb more ds else (significand, d :: ds)

/-- The greatest power of ten that a number is multiplied or divided by at once. -/
def greatestPower : Nat := 308

/-- Divides by a power of ten in steps of at most `10 ^ 308`. -/
def divideByPower (x : Binary64) (power : Nat) : Binary64 :=
  if power ≤ greatestPower then x.div (Binary64.ofNat (10 ^ power))
  else if x.isZero then x
  else divideByPower (x.div (Binary64.ofNat (10 ^ greatestPower))) (power - greatestPower)
termination_by power
decreasing_by
  simp only [greatestPower] at *
  omega

/-- The significand times a power of ten, unless it is too large. -/
def scale? (significand : Nat) (power : Int) : Option Binary64 :=
  let x := Binary64.ofNat significand
  if power < 0 then some (divideByPower x power.natAbs)
  else if power ≤ greatestPower then
    let scaled := x.mul (Binary64.ofNat (10 ^ power.toNat))
    if scaled.isFinite then some scaled else none
  else if x.isZero then some x
  else none

/-- The real number that is written, unless it is too large. -/
def numeralReal? (n : Numeral) : Option Binary64 :=
  let (significand, skipped) := absorb 0 n.whole
  let magnitude :=
    if n.isWhole ∧ skipped = [] then some (Binary64.ofNat significand)
    else
      let (significand, dropped) := absorb significand n.fraction
      let taken := n.fraction.length - dropped.length
      let asked := (n.exponent.map Exponent.toInt).getD 0
      scale? significand (asked + skipped.length - taken)
  magnitude.map fun x => if n.negative then x.neg else x

def toReal? (j : Json) : Option Binary64 :=
  match j with
  | .number n => numeralReal? n
  | _ => none

end WorldClock.Json
