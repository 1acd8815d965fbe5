import WorldClock.Json.Basic

/-!
# Reading JSON

`Json.read?` reads the bytes of one value with blanks around it. It checks the form of strings and
numbers and no more: whether an escape makes sense or a number is in range is found out when the
value is used.
-/

namespace WorldClock.Json

def isBlankByte (b : UInt8) : Bool :=
  b == 0x20 || b == 0x0A || b == 0x0D || b == 0x09

def skipBlanks (bs : Bytes) : Bytes := bs.dropWhile isBlankByte

def after? (start : Bytes) (bs : Bytes) : Option Bytes :=
  if start.isPrefixOf bs then some (bs.drop start.length) else none

def isHexByte (b : UInt8) : Bool :=
  decide ((48 ≤ b ∧ b < 58) ∨ (97 ≤ b ∧ b < 103) ∨ (65 ≤ b ∧ b < 71))

def isEscapeLetter (b : UInt8) : Bool :=
  ([ascii '"', ascii '\\', ascii '/', ascii 'b', ascii 'f', ascii 'n', ascii 'r',
    ascii 't']).contains b

def string? : Bytes → Option (Bytes × Bytes)
  | [] => none
  | 0x22 :: rest => some ([], rest)
  | 0x5C :: 0x75 :: a :: b :: c :: d :: rest =>
    if isHexByte a && isHexByte b && isHexByte c && isHexByte d then
      (string? rest).map fun (raw, after) => (0x5C :: 0x75 :: a :: b :: c :: d :: raw, after)
    else none
  | 0x5C :: letter :: rest =>
    if isEscapeLetter letter then
      (string? rest).map fun (raw, after) => (0x5C :: letter :: raw, after)
    else none
  | b :: rest =>
    if b < 0x20 ∨ b = 0x5C then none
    else (string? rest).map fun (raw, after) => (b :: raw, after)

def digits : Bytes → List Digit × Bytes
  | [] => ([], [])
  | b :: rest =>
    match Digit.ofByte? b with
    | none => ([], b :: rest)
    | some d =>
      let (ds, after) := digits rest
      (d :: ds, after)

/-- The digits at the start, at least one of them, and what follows them. -/
def someDigits? (bs : Bytes) : Option (List Digit × Bytes) :=
  match digits bs with
  | ([], _) => none
  | found => some found

/-- Digits before the point: a zero on its own, or digits that do not start with zero. -/
def whole? (bs : Bytes) : Option (List Digit × Bytes) :=
  match bs with
  | 0x30 :: rest => some ([0], rest)
  | _ => someDigits? bs

def fraction? (bs : Bytes) : Option (List Digit × Bytes) :=
  match bs with
  | 0x2E :: rest => someDigits? rest
  | _ => some ([], bs)

def exponentSign (bs : Bytes) : ExponentSign × Bytes :=
  match bs with
  | 0x2B :: rest => (.plus, rest)
  | 0x2D :: rest => (.minus, rest)
  | _ => (.none, bs)

def exponent? (bs : Bytes) : Option (Option Exponent × Bytes) :=
  match bs with
  | 0x65 :: rest | 0x45 :: rest =>
    let (sign, rest) := exponentSign rest
    (someDigits? rest).map fun (ds, after) => (some ⟨sign, ds⟩, after)
  | _ => some (none, bs)

def numeral? (bs : Bytes) : Option (Numeral × Bytes) := do
  let (negative, bs) := match bs with
    | 0x2D :: rest => (true, rest)
    | _ => (false, bs)
  let (whole, bs) ← whole? bs
  let (fraction, bs) ← fraction? bs
  let (exponent, bs) ← exponent? bs
  return (⟨negative, whole, fraction, exponent⟩, bs)

mutual

def value? : Nat → Bytes → Option (Json × Bytes)
  | 0, _ => none
  | fuel + 1, bs =>
    match skipBlanks bs with
    | [] => none
    | 0x22 :: rest => (string? rest).map fun (raw, after) => (.string raw, after)
    | 0x5B :: rest =>
      match skipBlanks rest with
      | 0x5D :: after => some (.array [], after)
      | _ => (items? fuel rest).map fun (items, after) => (.array items, after)
    | 0x7B :: rest =>
      match skipBlanks rest with
      | 0x7D :: after => some (.object [], after)
      | _ => (members? fuel rest).map fun (members, after) => (.object members, after)
    | 0x6E :: rest => (after? (Text.bytes "ull") rest).map fun after => (.null, after)
    | 0x74 :: rest => (after? (Text.bytes "rue") rest).map fun after => (.bool true, after)
    | 0x66 :: rest => (after? (Text.bytes "alse") rest).map fun after => (.bool false, after)
    | bs => (numeral? bs).map fun (n, after) => (.number n, after)

def items? : Nat → Bytes → Option (List Json × Bytes)
  | 0, _ => none
  | fuel + 1, bs => do
    let (item, bs) ← value? fuel bs
    match skipBlanks bs with
    | 0x5D :: after => return ([item], after)
    | 0x2C :: rest =>
      let (items, after) ← items? fuel rest
      return (item :: items, after)
    | _ => none

def members? : Nat → Bytes → Option (List (Bytes × Json) × Bytes)
  | 0, _ => none
  | fuel + 1, bs =>
    match skipBlanks bs with
    | 0x22 :: rest => do
      let (name, bs) ← string? rest
      match skipBlanks bs with
      | 0x3A :: rest =>
        let (value, bs) ← value? fuel rest
        match skipBlanks bs with
        | 0x7D :: after => return ([(name, value)], after)
        | 0x2C :: rest =>
          let (members, after) ← members? fuel rest
          return ((name, value) :: members, after)
        | _ => none
      | _ => none
    | _ => none

end

/-- Reads one value. Every nested value takes at least one byte, so the length of the input bounds
the depth. -/
def read? (bs : Bytes) : Option Json := do
  let (value, rest) ← value? (2 * bs.length + 2) bs
  if skipBlanks rest = [] then some value else none

end WorldClock.Json
