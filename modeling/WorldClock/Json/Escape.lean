import WorldClock.Json.Basic
import WorldClock.Text.Hex

/-!
# Strings in JSON

A quote, a backslash and the control characters are escaped; everything else is written as it is.
Reading also accepts the other escapes: `\/` and `\u` with four hexadecimal digits, a pair of them
for a character beyond the first 65536. Half of such a pair on its own is refused.
-/

namespace WorldClock.Json

def shortEscape? (b : UInt8) : Option UInt8 :=
  if b = 0x08 then some (ascii 'b')
  else if b = 0x09 then some (ascii 't')
  else if b = 0x0A then some (ascii 'n')
  else if b = 0x0C then some (ascii 'f')
  else if b = 0x0D then some (ascii 'r')
  else none

def escapeByte (b : UInt8) : Bytes :=
  if b = ascii '"' ∨ b = ascii '\\' then [ascii '\\', b]
  else if b < 0x20 then
    match shortEscape? b with
    | some letter => [ascii '\\', letter]
    | none =>
      [ascii '\\', ascii 'u', ascii '0', ascii '0',
        UInt8.ofNat (Hex.toChar (Fin.ofNat 16 (b.toNat / 16))).toNat,
        UInt8.ofNat (Hex.toChar (Fin.ofNat 16 b.toNat)).toNat]
  else [b]

def escape (bs : Bytes) : Bytes := bs.flatMap escapeByte

def unescapeLetter? (b : UInt8) : Option UInt8 :=
  if b = ascii '"' ∨ b = ascii '\\' ∨ b = ascii '/' then some b
  else if b = ascii 'b' then some 0x08
  else if b = ascii 't' then some 0x09
  else if b = ascii 'n' then some 0x0A
  else if b = ascii 'f' then some 0x0C
  else if b = ascii 'r' then some 0x0D
  else none

def hexUnit? (a b c d : UInt8) : Option Nat :=
  Hex.ofChars? ([a, b, c, d].map fun x => Char.ofNat x.toNat)

def isHighHalf (n : Nat) : Bool := decide (0xD800 ≤ n ∧ n < 0xDC00)

def isLowHalf (n : Nat) : Bool := decide (0xDC00 ≤ n ∧ n < 0xE000)

def codePointBytes (n : Nat) : Bytes := Text.bytes (String.singleton (Char.ofNat n))

def unescape? : Bytes → Option Bytes
  | [] => some []
  | 0x5C :: 0x75 :: a :: b :: c :: d :: rest => do
    let unit ← hexUnit? a b c d
    if isLowHalf unit then none
    else if isHighHalf unit then
      match rest with
      | 0x5C :: 0x75 :: a' :: b' :: c' :: d' :: after =>
        let second ← hexUnit? a' b' c' d'
        if isLowHalf second then
          let point := 0x10000 + (unit - 0xD800) * 0x400 + (second - 0xDC00)
          return codePointBytes point ++ (← unescape? after)
        else none
      | _ => none
    else return codePointBytes unit ++ (← unescape? rest)
  | 0x5C :: letter :: rest => do
    let b ← unescapeLetter? letter
    return b :: (← unescape? rest)
  | [0x5C] => none
  | b :: rest => do
    return b :: (← unescape? rest)

def stringText? (raw : Bytes) : Option String :=
  (unescape? raw).bind Text.ofBytes?

def ofText (s : String) : Json := .string (escape (Text.bytes s))

end WorldClock.Json
