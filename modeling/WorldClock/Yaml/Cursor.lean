/-!
# Places in a YAML text

A `Cursor` is a place in a text: what is left, and how many characters, lines and columns have been
passed. Five characters break lines; carriage return and line feed together count as one break.
-/

namespace WorldClock.Yaml

/-- A place in a text. -/
structure Cursor where
  rest : List Char
  index : Nat
  line : Nat
  column : Nat
deriving DecidableEq, Inhabited

def isBreak (c : Char) : Bool :=
  c == '\r' || c == '\n' || c == '\u0085' || c == '\u2028' || c == '\u2029'

def isBlank (c : Char) : Bool := c == ' ' || c == '\t'

def isWordChar (c : Char) : Bool := c.isAlphanum || c == '_' || c == '-'

def isPrintable (c : Char) : Bool :=
  let n := c.toNat
  n == 0x09 || n == 0x0A || n == 0x0D || (0x20 ≤ n && n ≤ 0x7E) || n == 0x85 ||
    (0xA0 ≤ n && n ≤ 0xD7FF) || (0xE000 ≤ n && n ≤ 0xFFFD) || (0x10000 ≤ n && n ≤ 0x10FFFF)

namespace Cursor

def start (cs : List Char) : Cursor := ⟨cs, 0, 0, 0⟩

def peek? (c : Cursor) : Option Char := c.rest.head?

def at? (c : Cursor) (n : Nat) : Option Char := c.rest[n]?

def isEnd (c : Cursor) : Bool := c.rest.isEmpty

def sees (c : Cursor) (x : Char) : Bool := c.peek? == some x

def seesBlank (c : Cursor) : Bool := c.peek?.any isBlank

def seesBreak (c : Cursor) : Bool := c.peek?.any isBreak

/-- Whether there is a blank, a line break, or the end so many places further. -/
def closesAt (c : Cursor) (n : Nat) : Bool :=
  match c.at? n with
  | none => true
  | some x => isBlank x || isBreak x

def closes (c : Cursor) : Bool := c.closesAt 0

def endsLine (c : Cursor) : Bool := c.isEnd || c.seesBreak

def skip (c : Cursor) : Cursor :=
  match c.rest with
  | [] => c
  | _ :: rest => { c with rest := rest, index := c.index + 1, column := c.column + 1 }

def skipMany : Nat → Cursor → Cursor
  | 0, c => c
  | n + 1, c => skipMany n c.skip

def skipBreak (c : Cursor) : Cursor :=
  match c.rest with
  | '\r' :: '\n' :: rest => ⟨rest, c.index + 2, c.line + 1, 0⟩
  | x :: rest => if isBreak x then ⟨rest, c.index + 1, c.line + 1, 0⟩ else c
  | [] => c

/-- What a line break stands for: a line feed, except for the line and paragraph separators. -/
def breakText (c : Cursor) : Char :=
  match c.peek? with
  | some '\u2028' => '\u2028'
  | some '\u2029' => '\u2029'
  | _ => '\n'

def takeWhile (kind : Char → Bool) (c : Cursor) : List Char × Cursor :=
  let taken := c.rest.takeWhile kind
  (taken, skipMany taken.length c)

def skipBlanks (c : Cursor) : Cursor := (c.takeWhile isBlank).2

def skipLine (c : Cursor) : Cursor := (c.takeWhile fun x => !isBreak x).2

def skipComment (c : Cursor) : Cursor := if c.sees '#' then c.skipLine else c

/-- Whether a line starts here with three of a character and nothing after them. -/
def seesMark (c : Cursor) (x : Char) : Bool :=
  c.column == 0 && c.rest.take 3 == [x, x, x] && c.closesAt 3

def seesDocumentMark (c : Cursor) : Bool := c.seesMark '-' || c.seesMark '.'

end Cursor

end WorldClock.Yaml
