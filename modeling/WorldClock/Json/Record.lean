import WorldClock.Json.Escape
import WorldClock.Json.Number

/-!
# Records in JSON

A record is an object with known members. It may also be written as an array of its members'
values in their order; members at the end that have a default may then be missing. Members with
other names are passed over, unless the record is closed. A member that occurs twice is refused.
-/

namespace WorldClock.Json

/-- The members that were found for a record. -/
structure Record where
  /-- The record was written as an array. -/
  positional : Bool
  members : List (String × Json)

def namedMembers? (members : List (Bytes × Json)) : Option (List (String × Json)) :=
  members.mapM fun (name, value) => (stringText? name).map fun s => (s, value)

/-- Finds the members of a record with the given names. A closed record has no others. -/
def record? (names : List String) (closed : Bool) (j : Json) : Option Record :=
  match j with
  | .object members => do
    let named ← namedMembers? members
    let known := named.filter fun (name, _) => names.contains name
    if (known.map (·.1)).Nodup ∧ (closed → known.length = named.length) then
      some ⟨false, known⟩
    else none
  | .array items =>
    if items.length ≤ names.length then some ⟨true, names.zip items⟩ else none
  | _ => none

namespace Record

def required {α : Type} (r : Record) (name : String) (decode : Json → Option α) : Option α :=
  (r.members.lookup name).bind decode

def defaulted {α : Type} (r : Record) (name : String) (default : α) (decode : Json → Option α) :
    Option α :=
  match r.members.lookup name with
  | none => some default
  | some j => decode j

end Record

def nullable? {α : Type} (decode : Json → Option α) (j : Json) : Option (Option α) :=
  match j with
  | .null => some none
  | j => (decode j).map some

/-- A member that may be `null`, and in an object also missing. -/
def Record.nullable {α : Type} (r : Record) (name : String) (decode : Json → Option α) :
    Option (Option α) :=
  match r.members.lookup name with
  | none => if r.positional then none else some none
  | some j => nullable? decode j

def ofMembers (members : List (String × Json)) : Json :=
  .object (members.map fun (name, value) => (escape (Text.bytes name), value))

/-- A value, or `null` in place of none. -/
def ofOption {α : Type} (encode : α → Json) (value : Option α) : Json :=
  match value with
  | none => .null
  | some a => encode a

def toText? (j : Json) : Option String :=
  match j with
  | .string raw => stringText? raw
  | _ => none

def toBool? (j : Json) : Option Bool :=
  match j with
  | .bool b => some b
  | _ => none

def toItems? {α : Type} (decode : Json → Option α) (j : Json) : Option (List α) :=
  match j with
  | .array items => items.mapM decode
  | _ => none

/-- A name out of a fixed list: the name as a string, or as the only member of an object, with the
value `null`. -/
def toName? (j : Json) : Option String :=
  match j with
  | .string raw => stringText? raw
  | .object [(raw, .null)] => stringText? raw
  | _ => none

end WorldClock.Json
