import WorldClock.Digits

/-!
# Decimal digits

A natural number is written with the digits of `Decimal.digits`. A `Numeral` is what stands on the
page when a number is written: sign, digits before and after the point, exponent. It says nothing
about how large a number may be; that is for whoever reads it.
-/

namespace WorldClock

/-- One decimal digit. -/
abbrev Digit := Fin 10

instance neZero_ten : @NeZero Nat Zero.ofOfNat0 10 := ⟨Nat.succ_ne_zero 9⟩

namespace Digit

def toChar (d : Digit) : Char :=
  match d with
  | 0 => '0' | 1 => '1' | 2 => '2' | 3 => '3' | 4 => '4'
  | 5 => '5' | 6 => '6' | 7 => '7' | 8 => '8' | 9 => '9'

def toByte (d : Digit) : UInt8 :=
  UInt8.ofNat (48 + d.val)

def ofByte? (b : UInt8) : Option Digit :=
  if h : 48 ≤ b.toNat ∧ b.toNat < 58 then some ⟨b.toNat - 48, by omega⟩ else none

def ofChar? (c : Char) : Option Digit :=
  if h : 48 ≤ c.toNat ∧ c.toNat < 58 then some ⟨c.toNat - 48, by omega⟩ else none

theorem ofByte?_toByte (d : Digit) : ofByte? d.toByte = some d := by
  revert d; decide

theorem ofChar?_toChar (d : Digit) : ofChar? d.toChar = some d := by
  revert d; decide

end Digit

namespace Decimal

/-- The digits of a number, without leading zeros; zero has the one digit zero. -/
def digits (n : Nat) : List Digit := Digits.ofNat (by decide) n

theorem value_digits (n : Nat) : Digits.value (digits n) = n := Digits.value_ofNat _ n

theorem digits_eq (n : Nat) :
    digits n = if n < 10 then [Fin.ofNat 10 n] else digits (n / 10) ++ [Fin.ofNat 10 n] := by
  rw [digits, Digits.ofNat]
  split
  · next h => simp [Fin.ofNat, Nat.mod_eq_of_lt h]
  · rfl

def text (n : Nat) : String :=
  String.ofList ((digits n).map Digit.toChar)

/-- The digits of a number as text, filled up with zeros in front to `width` characters. -/
def padded (width n : Nat) : String :=
  let ds := (digits n).map Digit.toChar
  String.ofList (List.replicate (width - ds.length) '0' ++ ds)

/-- The digits of an integer, with a minus sign in front of a negative one. -/
def signedText (n : Int) : String :=
  if n < 0 then "-" ++ text n.natAbs else text n.natAbs

def dropTrailingZeros (ds : List Digit) : List Digit :=
  (ds.reverse.dropWhile (· == 0)).reverse

/-- The digits of `n` in exactly `width` places, without the zeros at the end: what stands after
the point for `n` parts out of `10 ^ width`. -/
def fractionDigits (width n : Nat) : List Digit :=
  let ds := digits n
  dropTrailingZeros (List.replicate (width - ds.length) 0 ++ ds)

end Decimal

/-- The sign in front of an exponent. -/
inductive ExponentSign where
  | none
  | plus
  | minus
deriving DecidableEq, Repr, Inhabited

/-- The exponent of a written number. -/
structure Exponent where
  sign : ExponentSign
  digits : List Digit
deriving DecidableEq, Repr, Inhabited

def Exponent.toInt (e : Exponent) : Int :=
  match e.sign with
  | .minus => -(Digits.value e.digits : Int)
  | _ => (Digits.value e.digits : Int)

/-- A number as it is written. An absent fraction is an empty one. -/
structure Numeral where
  negative : Bool
  whole : List Digit
  fraction : List Digit
  exponent : Option Exponent
deriving DecidableEq, Repr, Inhabited

namespace Numeral

def ofNat (n : Nat) : Numeral :=
  ⟨false, Decimal.digits n, [], none⟩

/-- A whole number as it is written, with its sign. -/
def ofInt (n : Int) : Numeral :=
  ⟨decide (n < 0), Decimal.digits n.natAbs, [], none⟩

def isWhole (n : Numeral) : Bool :=
  n.fraction.isEmpty && n.exponent.isNone

def chars (n : Numeral) : List Char :=
  let sign := if n.negative then ['-'] else []
  let fraction := if n.fraction.isEmpty then [] else '.' :: n.fraction.map Digit.toChar
  let exponent := match n.exponent with
    | none => []
    | some e =>
      let mark := match e.sign with
        | .none => ['e']
        | .plus => ['e', '+']
        | .minus => ['e', '-']
      mark ++ e.digits.map Digit.toChar
  sign ++ n.whole.map Digit.toChar ++ fraction ++ exponent

def text (n : Numeral) : String :=
  String.ofList n.chars

end Numeral

end WorldClock
