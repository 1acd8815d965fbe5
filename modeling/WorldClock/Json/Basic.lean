import WorldClock.Decimal.Digits
import WorldClock.Text.Utf8

/-!
# JSON values

A `Json` value is what stands on the page, blanks left aside: strings keep their escapes, numbers
their digits, objects the order and the repetitions of their members. What the parts mean is
decided by whoever reads them, so a member nobody asks for is never interpreted.

`Json.bytes` writes a value without blanks.
-/

namespace WorldClock

/-- A JSON value as written. Strings and member names are the bytes between the quotes. -/
inductive Json where
  | null
  | bool (value : Bool)
  | number (numeral : Numeral)
  | string (raw : Bytes)
  | array (items : List Json)
  | object (members : List (Bytes × Json))
deriving Inhabited

namespace Json

/-- The byte of an ASCII character. -/
abbrev ascii (c : Char) : UInt8 := UInt8.ofNat c.toNat

def numeralBytes (n : Numeral) : Bytes :=
  let sign := if n.negative then [ascii '-'] else []
  let fraction := if n.fraction.isEmpty then [] else ascii '.' :: n.fraction.map Digit.toByte
  let exponent := match n.exponent with
    | none => []
    | some e =>
      let mark := match e.sign with
        | .none => [ascii 'e']
        | .plus => [ascii 'e', ascii '+']
        | .minus => [ascii 'e', ascii '-']
      mark ++ e.digits.map Digit.toByte
  sign ++ n.whole.map Digit.toByte ++ fraction ++ exponent

def quoted (raw : Bytes) : Bytes :=
  ascii '"' :: raw ++ [ascii '"']

mutual

def bytes : Json → Bytes
  | .null => Text.bytes "null"
  | .bool true => Text.bytes "true"
  | .bool false => Text.bytes "false"
  | .number n => numeralBytes n
  | .string raw => quoted raw
  | .array items => ascii '[' :: itemsBytes items ++ [ascii ']']
  | .object members => ascii '\x7b' :: membersBytes members ++ [ascii '\x7d']

def itemsBytes : List Json → Bytes
  | [] => []
  | [item] => item.bytes
  | item :: next :: rest => item.bytes ++ ascii ',' :: itemsBytes (next :: rest)

def membersBytes : List (Bytes × Json) → Bytes
  | [] => []
  | [(name, value)] => quoted name ++ ascii ':' :: value.bytes
  | (name, value) :: next :: rest =>
    quoted name ++ ascii ':' :: value.bytes ++ ascii ',' :: membersBytes (next :: rest)

end

end Json

end WorldClock
