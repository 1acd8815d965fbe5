import WorldClock.Yaml.Scalar

/-!
# Tokens of YAML

A text is cut into tokens. Indentation becomes tokens too: the start of a block collection when a
line is indented further than its parent, its end when a later line is not. What stands before a
colon is a key only in hindsight, so the scanner remembers where the last possible key began and
puts the key mark there once the colon is seen.
-/

namespace WorldClock.Yaml

/-- A token. -/
inductive Token where
  | versionDirective (major minor : Nat)
  | tagDirective (handle tag : String)
  | documentStart
  | documentEnd
  | streamEnd
  | blockSequenceStart
  | blockMappingStart
  | blockEnd
  | flowSequenceStart
  | flowSequenceEnd
  | flowMappingStart
  | flowMappingEnd
  | blockEntry
  | flowEntry
  | key
  | value
  | alias (name : String)
  | anchor (name : String)
  | tag (handle suffix : String)
  | scalar (text : String) (style : ScalarStyle)
deriving DecidableEq, Repr, Inhabited

/-- A place where a key may have begun. -/
structure PossibleKey where
  /-- How many tokens came before it. -/
  position : Nat
  /-- Whether nothing else can stand there. -/
  required : Bool
  place : Cursor
deriving DecidableEq

/-- A text half cut into tokens. -/
structure Scanner where
  cursor : Cursor
  /-- The tokens so far, the last one first. -/
  tokens : List Token
  /-- The columns of the open block collections, the innermost first. -/
  indents : List Nat
  /-- The possible key of each open pair of brackets, the innermost first, and of the block around
  them. -/
  keys : List (Option PossibleKey)
  /-- Whether a key may begin here. -/
  keyAllowed : Bool
  finished : Bool

namespace Scanner

def start (c : Cursor) : Scanner where
  cursor := c
  tokens := []
  indents := []
  keys := [none]
  keyAllowed := true
  finished := false

def inFlow (s : Scanner) : Bool := decide (1 < s.keys.length)

def indent? (s : Scanner) : Option Nat := s.indents.head?

def push (s : Scanner) (t : Token) : Scanner := { s with tokens := t :: s.tokens }

def insertAt (s : Scanner) (position : Nat) (t : Token) : Scanner :=
  let later := s.tokens.length - position
  { s with tokens := s.tokens.take later ++ t :: s.tokens.drop later }

def possibleKey? (s : Scanner) : Option PossibleKey := s.keys.head?.join

def setKey (s : Scanner) (k : Option PossibleKey) : Scanner :=
  { s with keys := k :: s.keys.drop 1 }

/-- Gives the possible key up; refused where a key is required. -/
def dropKey? (s : Scanner) : Option Scanner :=
  if s.possibleKey?.any (·.required) then none else some (s.setKey none)

def noteKey? (s : Scanner) : Option Scanner :=
  if s.keyAllowed then do
    let required := !s.inFlow && s.indent? == some s.cursor.column
    return (← s.dropKey?).setKey (some ⟨s.tokens.length, required, s.cursor⟩)
  else some s

def longestKey : Nat := 1024

/-- Whether a possible key can still be one here: it is short and on this line. -/
def isFresh (c : Cursor) (k : PossibleKey) : Bool :=
  decide (k.place.line = c.line) && decide (c.index ≤ k.place.index + longestKey)

def dropStale? (s : Scanner) : Option Scanner := do
  let keys ← s.keys.mapM fun k =>
    match k with
    | none => some none
    | some k => if isFresh s.cursor k then some (some k) else if k.required then none else some none
  return { s with keys := keys }

/-- Opens a block collection, if the column is further in than the innermost one. -/
def rollIndent (s : Scanner) (column position : Nat) (t : Token) : Scanner :=
  if !s.inFlow && s.indent?.all (fun n => decide (n < column)) then
    { s with indents := column :: s.indents }.insertAt position t
  else s

def closeBlocks (isClosed : Nat → Bool) : List Nat → List Token → List Nat × List Token
  | [], tokens => ([], tokens)
  | n :: rest, tokens =>
    if isClosed n then closeBlocks isClosed rest (.blockEnd :: tokens) else (n :: rest, tokens)

/-- Closes the block collections that are further in than a column, all of them if none is given. -/
def unrollIndent (s : Scanner) (column : Option Nat) : Scanner :=
  if s.inFlow then s
  else
    let isClosed (n : Nat) := column.all fun column => decide (column < n)
    let (indents, tokens) := closeBlocks isClosed s.indents s.tokens
    { s with indents := indents, tokens := tokens }

/-- Passes blanks, comments and line breaks. A tab counts as a blank only where no key may begin,
or inside brackets. -/
def skipToToken : Nat → Scanner → Scanner
  | 0, s => s
  | fuel + 1, s =>
    let blank (x : Char) := x == ' ' || (x == '\t' && (s.inFlow || !s.keyAllowed))
    let c := (s.cursor.takeWhile blank).2.skipComment
    if c.seesBreak then
      skipToToken fuel
        { s with cursor := c.skipBreak, keyAllowed := s.keyAllowed || !s.inFlow }
    else { s with cursor := c }

/-! ### Directives, anchors and tags -/

def versionNumber? (c : Cursor) : Option (Nat × Cursor) :=
  let (digits, c) := c.takeWhile Char.isDigit
  if digits.isEmpty || 9 < digits.length then none
  else some (digits.foldl (fun n d => 10 * n + (d.toNat - 48)) 0, c)

/-- Reads the handle of a tag: an exclamation mark, alone or with a name and another mark. -/
def handle? (inDirective : Bool) (c : Cursor) : Option (List Char × Cursor) :=
  if !c.sees '!' then none
  else
    let (name, c) := c.skip.takeWhile isWordChar
    if c.sees '!' then some ('!' :: name ++ ['!'], c.skip)
    else if inDirective && !name.isEmpty then none
    else some ('!' :: name, c)

def isTagMark (inBrackets : Bool) (x : Char) : Bool :=
  [';', '/', '?', ':', '@', '&', '=', '+', '$', '.', '!', '~', '*', '\'', '(', ')'].contains x ||
    (inBrackets && [',', '[', ']'].contains x)

def percentBytes? : Nat → Cursor → Option (List UInt8 × Cursor)
  | 0, _ => none
  | fuel + 1, c =>
    if !c.sees '%' then some ([], c)
    else
      let digits := c.skip.rest.take 2
      match if digits.length = 2 then Hex.ofChars? digits else none with
      | none => none
      | some n =>
        (percentBytes? fuel (c.skipMany 3)).map fun (bs, c) => (UInt8.ofNat n :: bs, c)

def tagChars? (inBrackets : Bool) : Nat → Cursor → Option (List Char × Cursor)
  | 0, _ => none
  | fuel + 1, c =>
    match c.peek? with
    | none => some ([], c)
    | some x =>
      if x == '%' then do
        let (bs, c) ← percentBytes? c.fuel c
        let part ← String.fromUTF8? ⟨bs.toArray⟩
        let (xs, c) ← tagChars? inBrackets fuel c
        return (part.toList ++ xs, c)
      else if isWordChar x || isTagMark inBrackets x then
        (tagChars? inBrackets fuel c.skip).map fun (xs, c) => (x :: xs, c)
      else some ([], c)

def directive? (c : Cursor) : Option (Token × Cursor) := do
  let (name, c) := c.skip.takeWhile isWordChar
  if !c.closes then none
  let (token, c) ← if name == "YAML".toList then do
      let (major, c) ← versionNumber? c.skipBlanks
      if !c.sees '.' then none
      let (minor, c) ← versionNumber? c.skip
      some (Token.versionDirective major minor, c)
    else if name == "TAG".toList then do
      let (handle, c) ← handle? true c.skipBlanks
      if !c.seesBlank then none
      let c := c.skipBlanks
      let (tag, c) ← tagChars? true c.fuel c
      if tag.isEmpty || !c.closes then none
      some (Token.tagDirective (String.ofList handle) (String.ofList tag), c)
    else none
  let c := c.skipBlanks.skipComment
  if c.endsLine then some (token, c.skipBreak) else none

/-- The characters that may follow the name of an anchor, beside blanks and line breaks. -/
def endsAnchor (c : Cursor) : Bool :=
  c.closes || c.peek?.any fun x => ['?', ':', ',', ']', '\x7d', '%', '@', '\u0060'].contains x

def anchorName? (c : Cursor) : Option (String × Cursor) :=
  let (name, c) := c.takeWhile isWordChar
  if name.isEmpty || !endsAnchor c then none else some (String.ofList name, c)

def tag? (inFlow : Bool) (c : Cursor) : Option (Token × Cursor) := do
  let (handle, suffix, c) ← if c.at? 1 == some '<' then do
      let c := c.skipMany 2
      let (uri, c) ← tagChars? true c.fuel c
      if uri.isEmpty || !c.sees '>' then none
      some ([], uri, c.skip)
    else do
      let (handle, after) ← handle? false c
      if 1 < handle.length && handle.getLast? == some '!' then
        let (suffix, c) ← tagChars? false after.fuel after
        if suffix.isEmpty then none
        some (handle, suffix, c)
      else
        let (suffix, c) ← tagChars? false after.fuel after
        let suffix := handle.drop 1 ++ suffix
        if suffix.isEmpty then some ([], ['!'], c) else some (['!'], suffix, c)
  if c.closes || (inFlow && c.sees ',') then
    some (.tag (String.ofList handle) (String.ofList suffix), c)
  else none

/-! ### Single tokens -/

/-- Adds a token of some characters before which no key can begin and behind which one may. -/
def mark? (s : Scanner) (width : Nat) (t : Token) (keyAllowed : Bool) : Option Scanner := do
  let s ← s.dropKey?
  return { s.push t with cursor := s.cursor.skipMany width, keyAllowed := keyAllowed }

def documentMark? (s : Scanner) (t : Token) : Option Scanner :=
  (s.unrollIndent none).mark? 3 t false

def openFlow? (s : Scanner) (t : Token) : Option Scanner := do
  let s ← s.noteKey?
  return { s.push t with cursor := s.cursor.skip, keys := none :: s.keys, keyAllowed := true }

def closeFlow? (s : Scanner) (t : Token) : Option Scanner := do
  let s ← s.dropKey?
  let keys := if s.inFlow then s.keys.drop 1 else s.keys
  return { s.push t with cursor := s.cursor.skip, keys := keys, keyAllowed := false }

def blockEntry? (s : Scanner) : Option Scanner :=
  if s.inFlow then s.mark? 1 .blockEntry true
  else if s.keyAllowed then
    (s.rollIndent s.cursor.column s.tokens.length .blockSequenceStart).mark? 1 .blockEntry true
  else none

def explicitKey? (s : Scanner) : Option Scanner :=
  if s.inFlow then s.mark? 1 .key false
  else if s.keyAllowed then
    (s.rollIndent s.cursor.column s.tokens.length .blockMappingStart).mark? 1 .key true
  else none

/-- The colon in front of a value. If a key may have begun, it did. -/
def value? (s : Scanner) : Option Scanner :=
  let finish (s : Scanner) (keyAllowed : Bool) : Scanner :=
    { s.push .value with cursor := s.cursor.skip, keyAllowed := keyAllowed }
  match s.possibleKey? with
  | some k =>
    let s := (s.insertAt k.position .key).rollIndent k.place.column k.position .blockMappingStart
    some (finish (s.setKey none) false)
  | none =>
    if s.inFlow then some (finish s false)
    else if s.keyAllowed then
      some (finish (s.rollIndent s.cursor.column s.tokens.length .blockMappingStart) true)
    else none

def word? (s : Scanner) (read : Cursor → Option (Token × Cursor)) : Option Scanner := do
  let s ← s.noteKey?
  let (t, c) ← read s.cursor
  return { s.push t with cursor := c, keyAllowed := false }

def quoted? (s : Scanner) : Option Scanner :=
  s.word? fun c => (Quoted.scan? c).map fun r => (.scalar (String.ofList r.text) .quoted, r.cursor)

def block? (s : Scanner) (style : ScalarStyle) : Option Scanner := do
  let s ← s.dropKey?
  let r ← Block.scan? s.indent? (style == .literal) s.cursor
  return { s.push (.scalar (String.ofList r.text) style) with
    cursor := r.cursor, keyAllowed := true }

def plain? (s : Scanner) : Option Scanner := do
  let s ← s.noteKey?
  let r ← Plain.scan? s.inFlow ((s.indent?.map (· + 1)).getD 0) s.cursor
  return { s.push (.scalar (String.ofList r.text) .plain) with
    cursor := r.cursor, keyAllowed := r.broken }

/-- The characters with which no plain scalar begins. -/
def isIndicator (x : Char) : Bool :=
  ['-', '?', ':', ',', '[', ']', '\x7b', '\x7d', '#', '&', '*', '!', '|', '>', '\'', '"', '%', '@',
    '\u0060'].contains x

def beginsPlain (s : Scanner) (x : Char) : Bool :=
  let c := s.cursor
  !isIndicator x || (x == '-' && !((c.at? 1).any isBlank)) ||
    (!s.inFlow && (x == '?' || x == ':') && !c.closesAt 1)

def finish? (s : Scanner) : Option Scanner := do
  let s ← (s.unrollIndent none).dropKey?
  return { s.push .streamEnd with keyAllowed := false, finished := true }

def next? (s : Scanner) : Option Scanner := do
  let s ← (skipToToken s.cursor.fuel s).dropStale?
  let s := s.unrollIndent (some s.cursor.column)
  let c := s.cursor
  match c.peek? with
  | none => s.finish?
  | some x =>
    if c.column == 0 && x == '%' then do
      let s ← (s.unrollIndent none).dropKey?
      let (t, c) ← directive? c
      return { s.push t with cursor := c, keyAllowed := false }
    else if c.seesMark '-' then s.documentMark? .documentStart
    else if c.seesMark '.' then s.documentMark? .documentEnd
    else if x == '[' then s.openFlow? .flowSequenceStart
    else if x == '\x7b' then s.openFlow? .flowMappingStart
    else if x == ']' then s.closeFlow? .flowSequenceEnd
    else if x == '\x7d' then s.closeFlow? .flowMappingEnd
    else if x == ',' then s.mark? 1 .flowEntry true
    else if x == '-' && c.closesAt 1 then s.blockEntry?
    else if x == '?' && (s.inFlow || c.closesAt 1) then s.explicitKey?
    else if x == ':' && (s.inFlow || c.closesAt 1) then s.value?
    else if x == '*' then s.word? fun c => (anchorName? c.skip).map fun (n, c) => (.alias n, c)
    else if x == '&' then s.word? fun c => (anchorName? c.skip).map fun (n, c) => (.anchor n, c)
    else if x == '!' then s.word? (tag? s.inFlow)
    else if x == '|' && !s.inFlow then s.block? .literal
    else if x == '>' && !s.inFlow then s.block? .folded
    else if x == '\'' || x == '"' then s.quoted?
    else if s.beginsPlain x then s.plain?
    else none

def runToEnd? : Nat → Scanner → Option Scanner
  | 0, _ => none
  | fuel + 1, s => if s.finished then some s else (s.next?).bind (runToEnd? fuel)

end Scanner

/-- The place behind a mark of the byte order. The mark counts as a character of its line. -/
def skipOrderMark (c : Cursor) : Cursor := if c.sees '\ufeff' then c.skip else c

def tokens? (text : String) : Option (List Token) :=
  let cs := text.toList
  if cs.all isPrintable then
    (Scanner.runToEnd? (cs.length + 2) (Scanner.start (skipOrderMark (Cursor.start cs)))).map
      fun s => s.tokens.reverse
  else none

end WorldClock.Yaml
