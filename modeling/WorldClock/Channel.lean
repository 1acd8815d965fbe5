import WorldClock.Text.Utf8

/-!
# Channels

A channel passes messages on to everyone who has subscribed. It keeps the last 256. A reader that
falls behind further is told once how many messages it has missed and goes on with the oldest one
that is kept.
-/

namespace WorldClock

/-- A message on a topic. -/
structure Message where
  topic : String
  payload : Bytes
deriving DecidableEq, Inhabited

/-- A channel with its readers. -/
structure Channel where
  published : Nat
  /-- The messages that are kept, the latest one first. -/
  kept : List Message
  /-- The number of the next message for each reader, in the order of subscription. -/
  readers : List Nat
deriving DecidableEq, Inhabited

/-- What a reader gets. -/
inductive Received where
  | message (m : Message)
  | nothing
  | lagged (missed : Nat)
deriving DecidableEq

namespace Channel

def capacity : Nat := 256

def empty : Channel := ⟨0, [], []⟩

/-- Adds a reader of everything published from now on; readers are numbered from zero. -/
def subscribe (c : Channel) : Nat × Channel :=
  (c.readers.length, { c with readers := c.readers ++ [c.published] })

def publish (c : Channel) (m : Message) : Channel :=
  { c with published := c.published + 1, kept := (m :: c.kept).take capacity }

def oldest (c : Channel) : Nat := c.published - c.kept.length

def message? (c : Channel) (number : Nat) : Option Message :=
  if number < c.published then c.kept[c.published - 1 - number]? else none

def receive (c : Channel) (reader : Nat) : Received × Channel :=
  match c.readers[reader]? with
  | none => (.nothing, c)
  | some next =>
    if next < c.oldest then
      (.lagged (c.oldest - next), { c with readers := c.readers.set reader c.oldest })
    else
      match c.message? next with
      | none => (.nothing, c)
      | some m => (.message m, { c with readers := c.readers.set reader (next + 1) })

end Channel

end WorldClock
