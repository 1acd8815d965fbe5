import WorldClock.Yaml.Content
import WorldClock.Yaml.Node

/-!
# Records in YAML

A record is a mapping with known keys; keys with other names are passed over, and a known key that
occurs twice is refused. Where nothing is written, there is a record without members, or a list
without items.
-/

namespace WorldClock.Yaml

/-- A value of a document. -/
structure Value where
  document : Document
  /-- The node of the value; none in a document that holds nothing. -/
  node : Option Node

namespace Value

def ofText? (text : String) : Option Value :=
  (Document.ofText? text).map fun d => ⟨d, d.root⟩

def resolved (v : Value) : Option Node := v.node.bind v.document.resolve?

def isBlank (v : Value) : Bool :=
  match v.node with
  | none => true
  | some _ =>
    match v.resolved with
    | some (.scalar _ _ "" .plain) => true
    | _ => false

def text? (v : Value) : Option String :=
  match v.resolved with
  | some (.scalar _ _ text _) => some text
  | _ => none

/-- A text that may be nothing: a plain scalar that is blank or stands for nothing. A tag other than
that of nothing makes it a text. -/
def optionalText? (v : Value) : Option (Option String) :=
  match v.resolved with
  | some (.scalar _ tag text .plain) =>
    match tag with
    | none => some (if text.isEmpty || Content.isNull text then none else some text)
    | some tag =>
      if tag != Tag.null then some (some text)
      else if Content.isNull text then some none
      else none
  | some (.scalar _ _ text _) => some (some text)
  | _ => none

def content? {α : Type} (expected : String) (read : String → Option α) (v : Value) : Option α :=
  match v.resolved with
  | some (.scalar _ tag text style) =>
    if Content.mayBe expected tag style then read text else none
  | _ => none

def count? (v : Value) : Option Count := v.content? Tag.integer Content.count?

def real? (v : Value) : Option Binary64 := v.content? Tag.real Content.real?

def truth? (v : Value) : Option Bool := v.content? Tag.truth Content.truth?

/-- A name out of a fixed list: a scalar, or a tag of the document's own with nothing behind it. -/
def name? (v : Value) : Option String :=
  match v.resolved with
  | some (.scalar _ tag text style) =>
    match tag.map String.toList with
    | some ('!' :: own) =>
      if style == .plain && (text.isEmpty || Content.isNull text) then some (String.ofList own)
      else none
    | _ => some text
  | _ => none

def items? {α : Type} (read : Value → Option α) (v : Value) : Option (List α) :=
  if v.isBlank then some []
  else match v.resolved with
    | some (.sequence _ items) => items.mapM fun n => read ⟨v.document, some n⟩
    | _ => none

end Value

/-- The members that were found for a record. -/
structure Record where
  members : List (String × Value)

namespace Record

def ofValue? (names : List String) (v : Value) : Option Record :=
  if v.isBlank then some ⟨[]⟩
  else match v.resolved with
    | some (.mapping _ entries) => do
      let named ← entries.mapM fun (key, value) =>
        (Value.text? ⟨v.document, some key⟩).map fun name =>
          (name, (⟨v.document, some value⟩ : Value))
      let known := named.filter fun (name, _) => names.contains name
      if (known.map (·.1)).Nodup then some ⟨known⟩ else none
    | _ => none

def required {α : Type} (r : Record) (name : String) (read : Value → Option α) : Option α :=
  (r.members.lookup name).bind read

def defaulted {α : Type} (r : Record) (name : String) (default : α) (read : Value → Option α) :
    Option α :=
  match r.members.lookup name with
  | none => some default
  | some v => read v

end Record

end WorldClock.Yaml
