import WorldClock.Text.Hex
import WorldClock.Yaml.Cursor

/-!
# Scalars in YAML

A scalar is written plainly, in quotes, or as a block. Plain and quoted scalars may run over several
lines: a single line break counts as a space, of several the first is dropped. A block keeps its
lines, or folds them in the same way.
-/

namespace WorldClock.Yaml

/-- How a scalar is written. -/
inductive ScalarStyle where
  | plain
  | quoted
  | literal
  | folded
deriving DecidableEq, Repr, Inhabited

/-- A scalar that was read. -/
structure ScannedScalar where
  text : List Char
  cursor : Cursor
  /-- Whether lines were broken after its last character. -/
  broken : Bool

/-- Blanks and line breaks between two parts of a scalar. -/
structure Gap where
  /-- Blanks before the first line break. -/
  blanks : List Char
  first : Option Char
  others : List Char
  /-- Whether there was a line break, written out or escaped. -/
  broken : Bool
deriving Inhabited

namespace Gap

def empty : Gap := ⟨[], none, [], false⟩

def text (g : Gap) : List Char :=
  if !g.broken then g.blanks
  else match g.first with
    | some '\n' => if g.others.isEmpty then [' '] else g.others
    | some x => x :: g.others
    | none => g.others

/-- Passes a gap. A tab in front of the indentation of a continued scalar is refused. -/
def scan? (indent : Nat) : Nat → Cursor → Gap → Option (Gap × Cursor)
  | 0, _, _ => none
  | fuel + 1, c, g =>
    match c.peek? with
    | none => some (g, c)
    | some x =>
      if isBlank x then
        if g.broken && decide (c.column < indent) && x == '\t' then none
        else if g.broken then scan? indent fuel c.skip g
        else scan? indent fuel c.skip { g with blanks := g.blanks ++ [x] }
      else if isBreak x then
        if g.broken then
          scan? indent fuel c.skipBreak { g with others := g.others ++ [c.breakText] }
        else scan? indent fuel c.skipBreak ⟨[], some c.breakText, [], true⟩
      else some (g, c)

end Gap

def Cursor.fuel (c : Cursor) : Nat := c.rest.length + 1

namespace Plain

def isFlowMark (x : Char) : Bool :=
  x == ',' || x == '[' || x == ']' || x == '\x7b' || x == '\x7d'

def endsHere (inFlow : Bool) (c : Cursor) : Bool :=
  (c.sees ':' && c.closesAt 1) || (inFlow && c.peek?.any isFlowMark)

/-- Whether a colon stands here that is neither part of a scalar nor the mark of a value. -/
def badColon (inFlow : Bool) (c : Cursor) : Bool :=
  inFlow && c.sees ':' && ((c.at? 1).any fun x => x == '?' || isFlowMark x)

/-- Reads characters up to the next blank or the end of the scalar. -/
def part? (inFlow : Bool) : Nat → Cursor → Option (List Char × Cursor)
  | 0, _ => none
  | fuel + 1, c =>
    match c.peek? with
    | none => some ([], c)
    | some x =>
      if isBlank x || isBreak x then some ([], c)
      else if badColon inFlow c then none
      else if endsHere inFlow c then some ([], c)
      else (part? inFlow fuel c.skip).map fun (xs, c) => (x :: xs, c)

def scanFrom? (inFlow : Bool) (indent : Nat) :
    Nat → Cursor → Gap → List Char → Option ScannedScalar
  | 0, _, _, _ => none
  | fuel + 1, c, gap, text => do
    if c.seesDocumentMark || c.sees '#' then return ⟨text, c, gap.broken⟩
    let (xs, c) ← part? inFlow c.fuel c
    if xs.isEmpty then return ⟨text, c, gap.broken⟩
    let text := text ++ gap.text ++ xs
    if !(c.seesBlank || c.seesBreak) then return ⟨text, c, false⟩
    let (gap, c) ← Gap.scan? indent c.fuel c Gap.empty
    if !inFlow && decide (c.column < indent) then return ⟨text, c, gap.broken⟩
    scanFrom? inFlow indent fuel c gap text

def scan? (inFlow : Bool) (indent : Nat) (c : Cursor) : Option ScannedScalar :=
  scanFrom? inFlow indent c.fuel c Gap.empty []

end Plain

namespace Quoted

def escape? (x : Char) : Option Char :=
  match x with
  | '0' => some '\x00'
  | 'a' => some '\x07'
  | 'b' => some '\x08'
  | 't' | '\t' => some '\t'
  | 'n' => some '\n'
  | 'v' => some '\x0b'
  | 'f' => some '\x0c'
  | 'r' => some '\r'
  | 'e' => some '\x1b'
  | ' ' => some ' '
  | '"' => some '"'
  | '/' => some '/'
  | '\\' => some '\\'
  | 'N' => some '\u0085'
  | '_' => some '\u00a0'
  | 'L' => some '\u2028'
  | 'P' => some '\u2029'
  | _ => none

def escapeLength? (x : Char) : Option Nat :=
  match x with
  | 'x' => some 2
  | 'u' => some 4
  | 'U' => some 8
  | _ => none

def readEscape? (c : Cursor) : Option (Char × Cursor) := do
  let x ← c.peek?
  match escapeLength? x with
  | none => return (← escape? x, c.skip)
  | some width =>
    let digits := c.skip.rest.take width
    let n ← if digits.length = width then Hex.ofChars? digits else none
    if n.isValidChar then return (Char.ofNat n, c.skip.skipMany width) else none

/-- Reads characters up to the next blank or the closing quote. The third part tells whether an
escaped line break ended them. -/
def part? (quote : Char) : Nat → Cursor → Option (List Char × Cursor × Bool)
  | 0, _ => none
  | fuel + 1, c =>
    match c.peek? with
    | none => some ([], c, false)
    | some x =>
      let goOn (y : Char) (c : Cursor) :=
        (part? quote fuel c).map fun (ys, rest) => (y :: ys, rest)
      if isBlank x || isBreak x then some ([], c, false)
      else if quote == '\'' && x == '\'' && c.at? 1 == some '\'' then goOn '\'' c.skip.skip
      else if x == quote then some ([], c, false)
      else if quote == '"' && x == '\\' then
        if c.skip.seesBreak then some ([], c.skip.skipBreak, true)
        else (readEscape? c.skip).bind fun (y, c) => goOn y c
      else goOn x c.skip

def scanFrom? (quote : Char) : Nat → Cursor → List Char → Option ScannedScalar
  | 0, _, _ => none
  | fuel + 1, c, text => do
    if c.seesDocumentMark || c.isEnd then none
    let (xs, c, escaped) ← part? quote c.fuel c
    let text := text ++ xs
    if c.sees quote && !escaped then return ⟨text, c.skip, false⟩
    let (gap, c) ← Gap.scan? 0 c.fuel c { Gap.empty with broken := escaped }
    scanFrom? quote fuel c (text ++ gap.text)

def scan? (c : Cursor) : Option ScannedScalar := do
  let quote ← c.peek?
  scanFrom? quote c.fuel c.skip []

end Quoted

namespace Block

/-- What becomes of the line breaks at the end of a block. -/
inductive Chomping where
  | strip
  | clip
  | keep
deriving DecidableEq, Repr

def chomping? (c : Cursor) : Option Chomping :=
  match c.peek? with
  | some '+' => some .keep
  | some '-' => some .strip
  | _ => none

/-- The indentation that a digit asks for; zero is refused. -/
def increment? (c : Cursor) : Option (Option Nat) :=
  match c.peek? with
  | some x => if x == '0' then none else some (if x.isDigit then some (x.toNat - 48) else none)
  | none => some none

/-- Reads what stands after the mark of a block: chomping and indentation in either order. -/
def header? (c : Cursor) : Option (Chomping × Option Nat × Cursor) := do
  match chomping? c with
  | some chomping =>
    let c := c.skip
    let increment ← increment? c
    return (chomping, increment, if increment.isSome then c.skip else c)
  | none =>
    let increment ← increment? c
    let c := if increment.isSome then c.skip else c
    match increment, chomping? c with
    | some _, some chomping => return (chomping, increment, c.skip)
    | _, _ => return (.clip, increment, c)

/-- Passes spaces up to a column, all of them if no column is given. -/
def skipIndent (indent : Option Nat) : Nat → Cursor → Cursor
  | 0, c => c
  | fuel + 1, c =>
    if c.sees ' ' && indent.all (fun n => decide (c.column < n)) then skipIndent indent fuel c.skip
    else c

/-- Passes empty lines and the indentation of the next line. The greatest column comes third. -/
def breaks? (indent : Option Nat) : Nat → Nat → Cursor → Option (List Char × Nat × Cursor)
  | 0, _, _ => none
  | fuel + 1, greatest, c =>
    let c := skipIndent indent c.fuel c
    let greatest := max greatest c.column
    if indent.all (fun n => decide (c.column < n)) && c.sees '\t' then none
    else if c.seesBreak then
      (breaks? indent fuel greatest c.skipBreak).map fun (xs, rest) => (c.breakText :: xs, rest)
    else some ([], greatest, c)

/-- Reads the lines of a block. `first` is the line break before them, `others` are the empty lines
after that one. -/
def lines? (literal : Bool) (indent : Nat) :
    Nat → Cursor → Bool → Option Char → List Char → List Char →
      Option (List Char × Option Char × List Char × Cursor)
  | 0, _, _, _, _, _ => none
  | fuel + 1, c, blankBefore, first, others, text =>
    if c.column == indent && !c.isEnd then
      let blankHere := c.seesBlank
      let between :=
        if !literal && first == some '\n' && !blankBefore && !blankHere then
          if others.isEmpty then [' '] else others
        else first.toList ++ others
      let (xs, c) := c.takeWhile fun x => !isBreak x
      let first := if c.seesBreak then some c.breakText else none
      let c := c.skipBreak
      match breaks? (some indent) c.fuel 0 c with
      | none => none
      | some (others, _, c) =>
        lines? literal indent fuel c blankHere first others (text ++ between ++ xs)
    else some (text, first, others, c)

/-- Reads a block whose parent is indented by `parent`, if at all. -/
def scan? (parent : Option Nat) (literal : Bool) (c : Cursor) : Option ScannedScalar := do
  let (chomping, increment, c) ← header? c.skip
  let c := c.skipBlanks.skipComment
  if !c.endsLine then none
  let c := c.skipBreak
  let given := increment.map fun n => parent.getD 0 + n
  let (others, greatest, c) ← breaks? given c.fuel 0 c
  let least := max 1 ((parent.map (· + 1)).getD 0)
  let indent := given.getD (max greatest least)
  let (text, first, others, c) ← lines? literal indent c.fuel c false none others []
  let last := match chomping with
    | .strip => []
    | .clip => first.toList
    | .keep => first.toList ++ others
  return ⟨text ++ last, c, true⟩

end Block

end WorldClock.Yaml
