import WorldClock.Instant.Basic
import WorldClock.Text.Hex

/-!
# Identifiers

Worlds and events are identified by 128 bits. They are written as 32 lower-case hexadecimal digits
in five groups, and read in four forms: grouped, ungrouped, in braces, and with `urn:uuid:` in
front. New identifiers start with the time they were made at, so that they sort by age.
-/

namespace WorldClock

/-- A 128-bit identifier. -/
structure Identifier where
  bits : BitVec 128
deriving DecidableEq, Inhabited

namespace Identifier

def groupLengths : List Nat := [8, 4, 4, 4, 12]

def splitGroups? : List Nat → List Char → Option (List Char)
  | [], [] => some []
  | [], _ :: _ => none
  | [last], cs => if cs.length = last then some cs else none
  | length :: rest, cs =>
    if (cs.take length).length = length then
      match cs.drop length with
      | '-' :: after => (splitGroups? rest after).map (cs.take length ++ ·)
      | _ => none
    else none

def ofDigits? (cs : List Char) : Option Identifier :=
  if cs.length = 32 then (Hex.ofChars? cs).map fun n => ⟨BitVec.ofNat 128 n⟩ else none

def ofGroups? (cs : List Char) : Option Identifier :=
  (splitGroups? groupLengths cs).bind ofDigits?

def urnMark : List Char := ['u', 'r', 'n', ':', 'u', 'u', 'i', 'd', ':']

def ofChars? (cs : List Char) : Option Identifier :=
  if cs.length = 32 then ofDigits? cs
  else if cs.length = 38 ∧ cs.head? = some '{' ∧ cs.getLast? = some '}' then
    ofGroups? (cs.drop 1).dropLast
  else if cs.length = 45 ∧ cs.take 9 = urnMark then ofGroups? (cs.drop 9)
  else ofGroups? cs

def ofText? (s : String) : Option Identifier := ofChars? s.toList

def chars (i : Identifier) : List Char :=
  let ds := Hex.chars 32 i.bits.toNat
  ds.take 8 ++ '-' :: ((ds.drop 8).take 4 ++ '-' :: ((ds.drop 12).take 4 ++
    '-' :: ((ds.drop 16).take 4 ++ '-' :: ds.drop 20)))

def text (i : Identifier) : String := String.ofList i.chars

/-- The identifier made at an instant with a serial number: 48 bits of milliseconds, the version,
the serial number, with the variant bits between its two parts. -/
def timeOrdered (made : Instant) (serial : Nat) : Identifier :=
  let millis := made.millis.toNat % 2 ^ 48
  let high := serial / 2 ^ 62 % 2 ^ 12
  let low := serial % 2 ^ 62
  ⟨BitVec.ofNat 128 (millis * 2 ^ 80 + 7 * 2 ^ 76 + high * 2 ^ 64 + 2 * 2 ^ 62 + low)⟩

def version (i : Identifier) : Nat := i.bits.toNat / 2 ^ 76 % 16

def before (a b : Identifier) : Bool := decide (a.bits.toNat < b.bits.toNat)

end Identifier

/-- The identifier of a simulated world. -/
structure WorldId where
  identifier : Identifier
deriving DecidableEq, Inhabited

namespace WorldId

def text (w : WorldId) : String := w.identifier.text

def ofText? (s : String) : Option WorldId := (Identifier.ofText? s).map WorldId.mk

def topic (w : WorldId) : String := "world." ++ w.text ++ ".tick"

end WorldId

/-- The identifier of an event. -/
structure EventId where
  identifier : Identifier
deriving DecidableEq, Inhabited

namespace EventId

def text (e : EventId) : String := e.identifier.text

def ofText? (s : String) : Option EventId := (Identifier.ofText? s).map EventId.mk

end EventId

end WorldClock
