/-!
# Log filters

A log filter is a list of directives between commas; the empty text has none. A directive lets lines
up to a level through: `info` lets those of the whole program through, `target[span{field}]=info`
only some of them. Without a level, all lines are let through.
-/

namespace WorldClock

namespace LogFilter

def cutAt (marks : List Char) (cs : List Char) : List Char × List Char :=
  let head := cs.takeWhile fun c => !marks.contains c
  (head, cs.drop head.length)

/-- The names of the levels; each lets more lines through than the one before it. -/
def levelNames : List String := ["off", "error", "warn", "info", "debug", "trace"]

def mostTalkative : Nat := 5

def numberedLevel? (cs : List Char) : Option Nat :=
  let digits := if cs.head? == some '+' then cs.drop 1 else cs
  if digits.isEmpty || !digits.all Char.isDigit then none
  else
    let n := digits.foldl (fun n d => 10 * n + (d.toNat - 48)) 0
    if n ≤ mostTalkative then some n else none

/-- The level of a name in any case, or of a number. -/
def level? (cs : List Char) : Option Nat :=
  match levelNames.idxOf? (String.ofList (cs.map Char.toLower)) with
  | some n => some n
  | none => numberedLevel? cs

def levelAfterSign? (cs : List Char) : Option Nat :=
  match cs with
  | [] => some mostTalkative
  | '=' :: [] => some mostTalkative
  | '=' :: name => level? name
  | _ => none

def afterSpan? (cs : List Char) : Option (List Char) :=
  match (cutAt [']', '\x7b'] cs).2 with
  | ']' :: rest => some rest
  | '\x7b' :: rest =>
    match cutAt ['\x7d'] rest with
    | (_ :: _, '\x7d' :: ']' :: rest) => some rest
    | _ => none
  | _ => none

/-- Whether a target can begin with a character. Letters of all scripts count. -/
def beginsTarget (c : Char) : Bool :=
  c.isAlphanum || ['-', ':', '_'].contains c || decide (128 ≤ c.toNat)

def directive? (cs : List Char) : Option Nat :=
  match cs with
  | [] => none
  | '[' :: rest => (afterSpan? rest).bind levelAfterSign?
  | c :: _ =>
    if !beginsTarget c then none
    else match cutAt ['=', '['] cs with
      | (word, []) => some ((level? word).getD mostTalkative)
      | (_, '[' :: rest) => (afterSpan? rest).bind levelAfterSign?
      | (_, rest) => levelAfterSign? rest

/-- The levels of all directives; none if one of them is malformed. -/
def levels? (filter : String) : Option (List Nat) :=
  if filter.isEmpty then some []
  else (filter.toList.splitOn ',').mapM directive?

def isValid (filter : String) : Bool := (levels? filter).isSome

/-- The level of the most talkative directive; malformed ones are passed over. Where there is none,
only errors are let through. -/
def greatestLevel (filter : String) : Nat :=
  match (filter.toList.splitOn ',').filterMap directive? with
  | [] => 1
  | levels => levels.foldl max 0

end LogFilter

end WorldClock
