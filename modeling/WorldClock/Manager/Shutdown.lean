import WorldClock.Manager.Move

/-!
# Shutting a process down

Whoever shuts a process down stops the worlds that are active at the beginning, one after the other,
and waits until each stop returns. Tickers and the log do not wait for that: their moves may come
between any two turns of the caller.
-/

namespace WorldClock

/-- A process whose worlds are stopped one after the other. -/
structure Shutdown where
  process : Manager
  /-- The world whose stop has been called and has not returned. -/
  current : Option WorldId
  /-- The worlds whose stops are still to be called. -/
  waiting : List WorldId
  /-- How many stops went well. -/
  stopped : Nat

namespace Shutdown

/-- What happens next: the caller goes on, or something else happens to the process. -/
inductive Turn where
  | caller (m : Moment)
  | other (m : Moment) (move : Move)

def start (p : Manager) (order : List WorldId) : Shutdown := ⟨p, none, order, 0⟩

def isOver (s : Shutdown) : Bool := s.current.isNone && s.waiting.isEmpty

/-- Calls the stop of the next world. -/
def call (s : Shutdown) (m : Moment) : Shutdown :=
  match s.waiting with
  | [] => s
  | a :: rest => ⟨s.process.apply m (.stop a), some a, rest, s.stopped⟩

/-- Takes the result of a stop, if it has returned. -/
def note (s : Shutdown) (a : WorldId) : Shutdown :=
  match s.process.result? with
  | none => s
  | some result =>
    let (stopped, p) := s.process.noteStop a s.stopped result
    ⟨p, none, s.waiting, stopped⟩

def turn (s : Shutdown) : Turn → Shutdown
  | .caller m =>
    match s.current with
    | none => s.call m
    | some a => s.note a
  | .other m move => { s with process := s.process.apply m move }

end Shutdown

end WorldClock
