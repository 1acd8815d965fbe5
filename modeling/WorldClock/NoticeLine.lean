import WorldClock.Json.Standard
import WorldClock.Notice
import WorldClock.Settings.Basic
import WorldClock.Settings.LogFilter

/-!
# Log lines

A notice is written as a line: its level, its message, and its fields with their names, or all of
them as members of a JSON object.
-/

namespace WorldClock

def NoticeLevel.rank : NoticeLevel → Nat
  | .warning => 2
  | .info => 3

def NoticeField.describe : NoticeField → String
  | .text s => s
  | .count n => Decimal.text n
  | .real x => Layout.message.text x

def NoticeField.toJson : NoticeField → Json
  | .text s => Json.ofText s
  | .count n => Json.ofNat n
  | .real x => Json.ofReal x

namespace Notice

def passes (filter : String) (n : Notice) : Bool :=
  decide (n.level.rank ≤ LogFilter.greatestLevel filter)

def describe (n : Notice) : String :=
  let fields := n.fields.map fun (name, value) => name ++ "=" ++ value.describe
  String.intercalate " " (n.level.name :: n.message :: fields)

def toJson (n : Notice) : Json :=
  Json.ofMembers ([("level", Json.ofText n.level.name), ("message", Json.ofText n.message)] ++
    n.fields.map fun (name, value) => (name, value.toJson))

def line (format : LogFormat) (n : Notice) : String :=
  match format with
  | .pretty => n.describe
  | .json => (Text.ofBytes? n.toJson.bytes).getD ""

end Notice

end WorldClock
