import WorldClock.Instant.Civil
import WorldClock.Instant.Utc
import WorldClock.Text.Blank

/-!
# Times as text

Times are written in Coordinated Universal Time, such as `2000-01-01T00:30:00.500Z`, with no, three,
six or nine digits after the seconds, whichever are the fewest that are exact. Years outside 0 to
9999 carry a sign, and the seconds of a leap second are sixty. Reading is laxer: any offset from
universal time, any number of fraction digits (those past nanoseconds are dropped), blanks around
the parts, and a leap second in any minute.
-/

namespace WorldClock

namespace Utc

def secondsPerDay : Nat := 86400

def yearText (year : Int) : String :=
  if 0 ≤ year ∧ year ≤ 9999 then Decimal.padded 4 year.toNat
  else (if year < 0 then "-" else "+") ++ Decimal.padded 4 year.natAbs

/-- The part after the seconds: the fewest of no, three, six and nine digits that are exact. -/
def fractionText (nanos : Nat) : String :=
  if nanos = 0 then ""
  else if nanos % nanosPerMilli = 0 then "." ++ Decimal.padded 3 (nanos / nanosPerMilli)
  else if nanos % nanosPerMicro = 0 then "." ++ Decimal.padded 6 (nanos / nanosPerMicro)
  else "." ++ Decimal.padded 9 nanos

def text (u : Utc) : String :=
  let date := Civil.ofDays (u.seconds / (secondsPerDay : Int))
  let ofDay := (u.seconds % (secondsPerDay : Int)).toNat
  yearText date.year ++ "-" ++ Decimal.padded 2 date.month ++ "-" ++ Decimal.padded 2 date.day
    ++ "T" ++ Decimal.padded 2 (ofDay / 3600) ++ ":" ++ Decimal.padded 2 (ofDay / 60 % 60)
    ++ ":" ++ Decimal.padded 2 (ofDay % 60 + u.nanos / nanosPerSecond)
    ++ fractionText (u.nanos % nanosPerSecond) ++ "Z"

/-! ### Reading -/

def takeDigits : Nat → List Char → List Digit × List Char
  | 0, cs => ([], cs)
  | _ + 1, [] => ([], [])
  | n + 1, c :: cs =>
    match Digit.ofChar? c with
    | none => ([], c :: cs)
    | some d =>
      let (ds, rest) := takeDigits n cs
      (d :: ds, rest)

def takeAllDigits (cs : List Char) : List Digit × List Char :=
  takeDigits cs.length cs

/-- A number of one to so many digits, with blanks before it. -/
def number? (width : Nat) (cs : List Char) : Option (Nat × List Char) :=
  match takeDigits width (Text.dropBlanks cs) with
  | ([], _) => none
  | (ds, rest) => some (Digits.value ds, rest)

/-- A year: four digits at most, or a sign and any number of them. -/
def year? (cs : List Char) : Option (Int × List Char) :=
  let signed (cs : List Char) : Option (Nat × List Char) :=
    match takeAllDigits cs with
    | ([], _) => none
    | (ds, rest) => some (Digits.value ds, rest)
  match Text.dropBlanks cs with
  | '-' :: rest => (signed rest).map fun (n, rest) => (-(n : Int), rest)
  | '+' :: rest => (signed rest).map fun (n, rest) => ((n : Int), rest)
  | cs => (number? 4 cs).map fun (n, rest) => ((n : Int), rest)

def mark? (mark : Char) (cs : List Char) : Option (List Char) :=
  match Text.dropBlanks cs with
  | c :: rest => if c = mark then some rest else none
  | [] => none

/-- Nanoseconds after a point: nine digits count, further ones are dropped. -/
def fraction? (cs : List Char) : Option (Nat × List Char) :=
  match cs with
  | '.' :: rest =>
    match takeAllDigits rest with
    | ([], _) => none
    | (ds, rest) =>
      let counted := ds.take 9
      some (Digits.value counted * 10 ^ (9 - counted.length), rest)
  | _ => some (0, cs)

/-- Two digits, the first of them at most a given one. -/
def twoDigits? (most : Nat) (cs : List Char) : Option (Nat × List Char) :=
  match takeDigits 2 cs with
  | ([a, b], rest) => if a.val ≤ most then some (10 * a.val + b.val, rest) else none
  | _ => none

/-- An offset from universal time in seconds: a sign, hours, minutes. -/
def signedOffset? (cs : List Char) : Option (Int × List Char) := do
  let (negative, cs) ← match cs with
    | '+' :: rest => some (false, rest)
    | '-' :: rest => some (true, rest)
    | '−' :: rest => some (true, rest)
    | _ => none
  let (hours, cs) ← twoDigits? 9 cs
  let cs := cs.dropWhile fun c => c == ':' || Text.isBlank c
  let (minutes, cs) ← twoDigits? 5 cs
  let seconds : Int := 3600 * hours + 60 * minutes
  return (if negative then -seconds else seconds, cs)

/-- An offset from universal time in seconds, or one of the names of universal time. -/
def offsetText? (cs : List Char) : Option (Int × List Char) :=
  match cs with
  | 'Z' :: rest | 'z' :: rest => some (0, rest)
  | a :: b :: c :: rest =>
    if [a.toUpper, b.toUpper, c.toUpper] = ['U', 'T', 'C'] then some (0, rest)
    else signedOffset? cs
  | _ => signedOffset? cs

/-- The seconds from 1970 to a date and time of day and the nanoseconds past them, if the calendar
has them. A sixty-first second is a leap second. -/
def ofClock? (date : Civil) (hour minute second nanos : Nat) : Option (Int × Nat) :=
  if date.isValid ∧ hour < 24 ∧ minute < 60 ∧ second ≤ 60 then
    let leap := second / 60
    let ofDay := hour * 3600 + minute * 60 + (second - leap)
    some (date.toDays * (secondsPerDay : Int) + ofDay, leap * nanosPerSecond + nanos)
  else none

def coversDate (date : Civil) : Bool :=
  decide (minSeconds ≤ date.toDays * (secondsPerDay : Int) ∧
    date.toDays * (secondsPerDay : Int) ≤ maxSeconds)

def ofChars? (cs : List Char) : Option Utc := do
  let (year, cs) ← year? cs
  let (month, cs) ← number? 2 (← mark? '-' cs)
  let (day, cs) ← number? 2 (← mark? '-' cs)
  let cs ← match cs with
    | 'T' :: rest | 't' :: rest | ' ' :: rest => some rest
    | _ => none
  let (hour, cs) ← number? 2 cs
  let (minute, cs) ← number? 2 (← mark? ':' cs)
  let (second, cs) ← number? 2 (← mark? ':' cs)
  let (nanos, cs) ← fraction? cs
  let (offset, cs) ← offsetText? (Text.dropBlanks cs)
  let date : Civil := ⟨year, month, day⟩
  if Text.dropBlanks cs = [] ∧ offset.natAbs < secondsPerDay ∧ coversDate date then
    let (seconds, nanos) ← ofClock? date hour minute second nanos
    ofParts? (seconds - offset) nanos
  else none

def ofText? (s : String) : Option Utc := ofChars? s.toList

end Utc

namespace Instant

def text (t : Instant) : String := t.toUtc.text

def ofText? (s : String) : Option Instant := (Utc.ofText? s).bind Utc.toInstant?

end Instant

end WorldClock
