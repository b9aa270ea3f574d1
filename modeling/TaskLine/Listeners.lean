import TaskLine.Host

/-!
# Listeners

Listeners subscribe to events of a host under a tag. They are told in the order
in which they subscribed. Unsubscribing under a tag ends the subscription that
was last made under it; doing so twice changes nothing.
-/

namespace TaskLine

/-- The short name of an event. -/
def HostEvent.name : HostEvent → Text
  | .lineCommitted => "commit".toList
  | .cursorLineChanged => "cursor".toList
  | .leafChanged => "leaf".toList

/-- A subscription. -/
structure Listener where
  id : Nat
  event : HostEvent
  tag : Text
deriving DecidableEq, Repr

/-- The listeners of a host. -/
structure Listeners where
  entries : List Listener := []
  /-- Every subscription ever made, the last one first. -/
  history : List Listener := []
deriving Repr

namespace Listeners

def size (l : Listeners) : Nat := l.entries.length

def subscribe (event : HostEvent) (tag : Text) (l : Listeners) : Listeners :=
  let entry : Listener := ⟨l.history.length, event, tag⟩
  { entries := l.entries ++ [entry], history := entry :: l.history }

def unsubscribe (tag : Text) (l : Listeners) : Listeners :=
  match l.history.find? fun e => e.tag = tag with
  | some last => { l with entries := l.entries.filter fun e => e.id != last.id }
  | none => l

/-- The tags of the listeners to an event. -/
def tagsOf (event : HostEvent) (l : Listeners) : List Text :=
  (l.entries.filter fun e => e.event = event).map (·.tag)

end Listeners

end TaskLine
