import WorldClock.Json.Record

/-!
# Seasons

A year has four seasons of one length and starts with spring.
-/

namespace WorldClock

/-- One quarter of a simulated year. -/
inductive Season where
  | spring
  | summer
  | autumn
  | winter
deriving DecidableEq, Repr, Inhabited

namespace Season

def all : List Season := [.spring, .summer, .autumn, .winter]

/-- How many seasons a year has. -/
abbrev perYear : Nat := 4

/-- The season with a given place in the year, counted from zero. -/
def ofIndex (i : Fin perYear) : Season :=
  match i with
  | 0 => .spring
  | 1 => .summer
  | 2 => .autumn
  | 3 => .winter

def name : Season → String
  | .spring => "Spring"
  | .summer => "Summer"
  | .autumn => "Autumn"
  | .winter => "Winter"

def ofName? (s : String) : Option Season := all.find? fun season => season.name == s

def toJson (s : Season) : Json := Json.ofText s.name

def ofJson? (j : Json) : Option Season := (Json.toName? j).bind ofName?

theorem ofName?_name (s : Season) : ofName? s.name = some s := by
  cases s <;> decide

end Season

end WorldClock
