import Markup.Event

/-!
# Listeners

A listener receives events one after another and may ask for the parse to end: by aborting it, or
by triggering the cancellation token that listeners and parser share. Two listeners are defined
here; one collects the events, the other waits for a certain event and then stops the parse.
-/

namespace Markup

/-- What a listener asks for after an event. -/
structure Reaction where
  /-- The cancellation token is to be triggered. -/
  cancels : Bool
  /-- The parse is to be aborted, for this reason. -/
  abort? : Option String
  deriving DecidableEq, Repr

/-- A listener asks for nothing. -/
def Reaction.proceed : Reaction := ⟨false, none⟩

/-- Values that receive events. -/
class Listener (α : Type) where
  /-- The listener after an event and its reaction to the event. -/
  receive : α → Event → α × Reaction

/-! ## Collecting -/

/-- The events received so far. -/
structure Collector where
  /-- The events, the last one first. -/
  received : List Event
  deriving DecidableEq

namespace Collector

/-- Nothing has been received. -/
def empty : Collector := ⟨[]⟩

/-- The events in the order in which they were received. -/
def events (c : Collector) : List Event :=
  c.received.reverse

instance : Listener Collector where
  receive c event := (⟨event :: c.received⟩, .proceed)

@[simp] theorem events_empty : empty.events = [] := rfl

/-- A collector puts each event after those it has. -/
@[simp] theorem events_receive (c : Collector) (event : Event) :
    (Listener.receive c event).1.events = c.events ++ [event] :=
  List.reverse_cons

end Collector

/-! ## Stopping -/

/-- How a breakpoint stops the parse. -/
inductive BreakAction where
  /-- It aborts the parse for a reason. -/
  | abort (reason : String)
  /-- It aborts the parse and gives the event as the reason. -/
  | abortNaming
  /-- It triggers the cancellation token. -/
  | cancel
  deriving DecidableEq, Repr

/-- Stops the parse at an event of a kind, counted from one over all parses. -/
structure Breakpoint where
  /-- The kind of event. -/
  kind : EventKind
  /-- The number of the event. -/
  target : Nat
  /-- The number of events of the kind so far. -/
  seen : Nat
  /-- What happens there. -/
  action : BreakAction
  deriving DecidableEq, Repr

/-- What a breakpoint asks for at its event. -/
def BreakAction.reaction (event : Event) : BreakAction → Reaction
  | .abort reason => ⟨false, some reason⟩
  | .abortNaming => ⟨false, some ("saw " ++ event.describe)⟩
  | .cancel => ⟨true, none⟩

instance : Listener Breakpoint where
  receive b event :=
    if event.kind = b.kind then
      ({ b with seen := b.seen + 1 },
        if b.seen + 1 = b.target then b.action.reaction event else .proceed)
    else (b, .proceed)

end Markup
