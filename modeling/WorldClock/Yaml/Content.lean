import WorldClock.Binary64
import WorldClock.Count
import WorldClock.Text.Hex
import WorldClock.Yaml.Scalar

/-!
# What scalars of YAML stand for

Whole numbers are written in base ten, or in base sixteen, eight or two behind `0x`, `0o` or `0b`.
Several digits that begin with a zero are no number. Real numbers are whole numbers, decimal
fractions with or without an exponent, infinities, or not a number. Only a plain scalar is a number
or a truth value; a literal block is one if its tag says so.
-/

namespace WorldClock.Yaml

namespace Tag

def integer : String := "tag:yaml.org,2002:int"

def real : String := "tag:yaml.org,2002:float"

def truth : String := "tag:yaml.org,2002:bool"

def null : String := "tag:yaml.org,2002:null"

end Tag

namespace Content

def isNull (s : String) : Bool := ["null", "Null", "NULL", "~"].contains s

def truth? (s : String) : Option Bool :=
  if ["true", "True", "TRUE"].contains s then some true
  else if ["false", "False", "FALSE"].contains s then some false
  else none

def beginsSigned (cs : List Char) : Bool := cs.head?.any fun c => c == '+' || c == '-'

def dropPlus : List Char → List Char
  | '+' :: rest => rest
  | cs => cs

def digit? (base : Nat) (c : Char) : Option (Fin base) := do
  let d ← Hex.ofChar? c
  if h : d.val < base then some ⟨d.val, h⟩ else none

def digits? (base : Nat) (cs : List Char) : Option Count := do
  let ds ← cs.mapM (digit? base)
  if ds.isEmpty then none else Count.ofNat? (Digits.value ds)

def isPadded (cs : List Char) : Bool :=
  match cs with
  | '0' :: d :: ds => (d :: ds).all Char.isDigit
  | _ => false

def count? (s : String) : Option Count :=
  let cs := dropPlus s.toList
  match cs with
  | '0' :: 'x' :: ds => digits? 16 ds
  | '0' :: 'o' :: ds => digits? 8 ds
  | '0' :: 'b' :: ds => digits? 2 ds
  | _ => if isPadded cs then none else digits? 10 cs

def splitDigits (cs : List Char) : List Digit × List Char :=
  let written := cs.takeWhile Char.isDigit
  (written.filterMap Digit.ofChar?, cs.drop written.length)

def exponent? (cs : List Char) : Option Exponent :=
  let (sign, cs) := match cs with
    | '+' :: rest => (ExponentSign.plus, rest)
    | '-' :: rest => (ExponentSign.minus, rest)
    | cs => (ExponentSign.none, cs)
  match splitDigits cs with
  | (d :: ds, []) => some ⟨sign, d :: ds⟩
  | _ => none

/-- Reads a decimal number: digits with or without a point among them, and an exponent. -/
def numeral? (cs : List Char) : Option Numeral :=
  let (negative, cs) := match cs with
    | '-' :: rest => (true, rest)
    | cs => (false, cs)
  let (whole, cs) := splitDigits cs
  let (fraction, cs) := match cs with
    | '.' :: rest => splitDigits rest
    | cs => ([], cs)
  if whole.isEmpty && fraction.isEmpty then none
  else match cs with
    | [] => some ⟨negative, whole, fraction, none⟩
    | c :: rest =>
      if c == 'e' || c == 'E' then
        (exponent? rest).map fun e => ⟨negative, whole, fraction, some e⟩
      else none

/-- The real number that a text stands for. A decimal number too large for double precision is
refused. -/
def real? (s : String) : Option Binary64 :=
  let unsigned := dropPlus s.toList
  if unsigned.length < s.length && beginsSigned unsigned then none
  else if [".inf", ".Inf", ".INF"].contains (String.ofList unsigned) then some (.infinity false)
  else if ["-.inf", "-.Inf", "-.INF"].contains s then some (.infinity true)
  else if [".nan", ".NaN", ".NAN"].contains s then some .nan
  else ((numeral? unsigned).map Binary64.ofNumeral).filter Binary64.isFinite

def mayBe (expected : String) (tag : Option String) (style : ScalarStyle) : Bool :=
  match style with
  | .plain => true
  | .literal => tag == some expected
  | _ => false

end Content

end WorldClock.Yaml
