import WorldClock.Yaml.Token

/-!
# Documents of YAML

Tokens form a tree of scalars, sequences and mappings. A node may carry an anchor, and an alias
stands for the node of an anchor. Anchors are numbered: a definition takes the number of names that
were defined before it, and an alias takes the number of the latest definition of its name. A number
that is given twice belongs to the later node.
-/

namespace WorldClock.Yaml

/-- A node of a document. -/
inductive Node where
  | alias (number : Nat)
  | scalar (anchor : Option Nat) (tag : Option String) (text : String) (style : ScalarStyle)
  | sequence (anchor : Option Nat) (items : List Node)
  | mapping (anchor : Option Nat) (entries : List (Node × Node))
deriving Inhabited

namespace Node

def empty : Node := .scalar none none "" .plain

mutual

/-- The nodes with an anchor, in the order in which they begin. -/
def anchored : Node → List (Nat × Node)
  | .alias _ => []
  | .scalar anchor tag text style => mark anchor (.scalar anchor tag text style)
  | .sequence anchor items => mark anchor (.sequence anchor items) ++ anchoredItems items
  | .mapping anchor entries => mark anchor (.mapping anchor entries) ++ anchoredEntries entries
where
  /-- A node under its anchor, if it has one. -/
  mark (anchor : Option Nat) (n : Node) : List (Nat × Node) :=
    (anchor.map fun number => (number, n)).toList

def anchoredItems : List Node → List (Nat × Node)
  | [] => []
  | n :: rest => anchored n ++ anchoredItems rest

def anchoredEntries : List (Node × Node) → List (Nat × Node)
  | [] => []
  | (k, v) :: rest => anchored k ++ anchored v ++ anchoredEntries rest

end

end Node

/-- Tokens that are being read as a document. -/
structure Source where
  tokens : List Token
  /-- What the handles of tags stand for. -/
  handles : List (String × String)
  anchors : List (String × Nat)

/-- Reads part of a document, unless the tokens do not fit. -/
abbrev Reading := StateT Source Option

namespace Reading

def refuse {α : Type} : Reading α := fun _ => none

def peek : Reading (Option Token) := do return (← get).tokens.head?

def sees (ts : List Token) : Reading Bool := do return (← peek).any ts.contains

def skip : Reading Unit := modify fun s => { s with tokens := s.tokens.drop 1 }

def take (t : Token) : Reading Bool := do
  if ← sees [t] then skip; return true else return false

def expect (t : Token) : Reading Unit := do unless ← take t do refuse

def defineAnchor (name : String) : Reading Nat := do
  let s ← get
  let number := s.anchors.length
  set { s with anchors := (name, number) :: s.anchors.filter (·.1 != name) }
  return number

def findAnchor (name : String) : Reading Nat := do
  match (← get).anchors.lookup name with
  | some number => return number
  | none => refuse

def resolveTag (handle suffix : String) : Reading String := do
  if handle.isEmpty then return suffix
  match (← get).handles.lookup handle with
  | some start => return start ++ suffix
  | none => refuse

def anchor : Reading (Option Nat) := do
  match ← peek with
  | some (.anchor name) => skip; return some (← defineAnchor name)
  | _ => return none

def tag : Reading (Option String) := do
  match ← peek with
  | some (.tag handle suffix) => skip; return some (← resolveTag handle suffix)
  | _ => return none

/-- Reads an anchor and a tag in either order, each of them at most once. -/
def properties : Reading (Option Nat × Option String) := do
  match ← tag with
  | some t => return (← anchor, some t)
  | none => let a ← anchor; return (a, ← tag)

mutual

/-- Reads a node. Block collections can stand only in blocks; items without further indentation
only where a mapping has its values. -/
def node (inBlock asValue : Bool) : Nat → Reading Node
  | 0 => refuse
  | fuel + 1 => do
    match ← peek with
    | some (.alias name) => skip; return .alias (← findAnchor name)
    | _ =>
      let (anchor, tag) ← properties
      match ← peek with
      | some (.scalar text style) =>
        skip
        return .scalar anchor (tag.filter (· != "!")) text style
      | some .flowSequenceStart => skip; return .sequence anchor (← flowItems true fuel)
      | some .flowMappingStart => skip; return .mapping anchor (← flowEntries true fuel)
      | some .blockSequenceStart =>
        if inBlock then skip; return .sequence anchor (← blockItems fuel)
        else blank anchor tag
      | some .blockMappingStart =>
        if inBlock then skip; return .mapping anchor (← blockEntries fuel)
        else blank anchor tag
      | some .blockEntry =>
        if asValue then return .sequence anchor (← dashItems fuel) else blank anchor tag
      | _ => blank anchor tag
where
  /-- A node of which only an anchor or a tag is written. -/
  blank (anchor : Option Nat) (tag : Option String) : Reading Node := do
    if anchor.isNone && tag.isNone then refuse
    return .scalar anchor tag "" .plain

def nodeUnless (stops : List Token) (inBlock asValue : Bool) : Nat → Reading Node
  | 0 => refuse
  | fuel + 1 => do if ← sees stops then return .empty else node inBlock asValue fuel

def blockItems : Nat → Reading (List Node)
  | 0 => refuse
  | fuel + 1 => do
    if ← take .blockEntry then
      let item ← nodeUnless [.blockEntry, .blockEnd] true false fuel
      return item :: (← blockItems fuel)
    expect .blockEnd
    return []

/-- Reads the items of a sequence that is no further in than the mapping around it. -/
def dashItems : Nat → Reading (List Node)
  | 0 => refuse
  | fuel + 1 => do
    if ← take .blockEntry then
      let item ← nodeUnless [.blockEntry, .key, .value, .blockEnd] true false fuel
      return item :: (← dashItems fuel)
    return []

def blockEntries : Nat → Reading (List (Node × Node))
  | 0 => refuse
  | fuel + 1 => do
    if ← take .key then
      let key ← nodeUnless [.key, .value, .blockEnd] true true fuel
      let value ← if ← take .value then nodeUnless [.key, .value, .blockEnd] true true fuel
        else pure .empty
      return (key, value) :: (← blockEntries fuel)
    expect .blockEnd
    return []

/-- Reads the items of a sequence in brackets. A key makes an item a mapping of one entry; where
such a key is empty, the token that follows is passed over. -/
def flowItems (first : Bool) : Nat → Reading (List Node)
  | 0 => refuse
  | fuel + 1 => do
    if ← take .flowSequenceEnd then return []
    unless first do expect .flowEntry
    if ← take .flowSequenceEnd then return []
    let item ← if ← take .key then
        let key ← if ← sees [.value, .flowEntry, .flowSequenceEnd] then do skip; pure .empty
          else node false false fuel
        let value ← if ← take .value then
            nodeUnless [.flowEntry, .flowSequenceEnd] false false fuel
          else pure .empty
        pure (.mapping none [(key, value)])
      else node false false fuel
    return item :: (← flowItems false fuel)

/-- Reads the entries of a mapping in braces. A node without a key mark is a key without a value. -/
def flowEntries (first : Bool) : Nat → Reading (List (Node × Node))
  | 0 => refuse
  | fuel + 1 => do
    if ← take .flowMappingEnd then return []
    unless first do expect .flowEntry
    if ← take .flowMappingEnd then return []
    let entry ← if ← take .key then
        let key ← nodeUnless [.value, .flowEntry, .flowMappingEnd] false false fuel
        let value ← if ← take .value then
            nodeUnless [.flowEntry, .flowMappingEnd] false false fuel
          else pure .empty
        pure (key, value)
      else
        let key ← node false false fuel
        pure (key, Node.empty)
    return entry :: (← flowEntries false fuel)

end

/-! ### Documents -/

def standardHandles : List (String × String) := [("!", "!"), ("!!", "tag:yaml.org,2002:")]

/-- Reads directives, each of them at most once, and tells whether there were any. -/
def directives (versioned : Bool) : Nat → Reading Bool
  | 0 => return false
  | fuel + 1 => do
    match ← peek with
    | some (.versionDirective major minor) =>
      if versioned || major != 1 || !(minor == 1 || minor == 2) then refuse
      skip
      let _ ← directives true fuel
      return true
    | some (.tagDirective handle tag) =>
      if (← get).handles.any (·.1 == handle) then refuse
      skip
      modify fun s => { s with handles := s.handles ++ [(handle, tag)] }
      let _ ← directives versioned fuel
      return true
    | _ => return false

def skipEnds : Nat → Reading Unit
  | 0 => return ()
  | fuel + 1 => do if ← take .documentEnd then skipEnds fuel

/-- Reads the only document; none if the text holds nothing. -/
def document : Reading (Option Node) := do
  let length := (← get).tokens.length
  let fuel := 3 * length + 10
  if ← sees [.streamEnd] then return none
  let directed ← directives false length
  modify fun s => { s with handles := s.handles ++ standardHandles }
  let root ← if ← take .documentStart then
      nodeUnless [.documentStart, .documentEnd, .streamEnd] true false fuel
    else if directed then refuse
    else node true false fuel
  skipEnds length
  expect .streamEnd
  return some root

end Reading

/-- A text as a tree. -/
structure Document where
  /-- The outermost node; none if the text holds nothing. -/
  root : Option Node
  anchored : List (Nat × Node)

namespace Document

def ofText? (text : String) : Option Document := do
  let tokens ← tokens? text
  let root ← StateT.run' Reading.document ⟨tokens, [], []⟩
  return ⟨root, (root.map Node.anchored).getD []⟩

/-- The node that an alias stands for, the node itself if it is no alias. -/
def resolve? (d : Document) (n : Node) : Option Node :=
  match n with
  | .alias number => d.anchored.reverse.lookup number
  | n => some n

end Document

end WorldClock.Yaml
