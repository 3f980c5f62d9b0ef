import Markup.Event
import Markup.Issue

/-!
# Traces

Reading a document does not depend on who listens. What it does is listed as a trace of actions in
the order in which they become due, together with the way the reading ends. Delivering the trace
to listeners, and stopping early where one of them asks for it, is a matter of its own.
-/

namespace Markup

/-- What reading a document does to the outside. -/
inductive Action where
  /-- Reading stops here if it has been cancelled. -/
  | checkpoint
  /-- An event is delivered. -/
  | deliver (event : Event)
  /-- An issue is recorded. -/
  | report (issue : Issue)
  /-- A remark is written to the log. -/
  | note (remark : String)
  deriving DecidableEq

/-- How reading ends. -/
inductive Outcome where
  /-- At the end of the document. -/
  | finished
  /-- At a read that failed. -/
  | failed (failure : ReadFailure)
  deriving DecidableEq

/-- All that reading a document does. -/
structure Trace where
  /-- The actions in order. -/
  actions : List Action
  /-- How reading ends. -/
  outcome : Outcome
  deriving DecidableEq

/-- The event that an action delivers. -/
def Action.event? : Action → Option Event
  | deliver event => some event
  | _ => none

/-- The issue that an action records. -/
def Action.issue? : Action → Option Issue
  | report issue => some issue
  | _ => none

/-- The events of a trace in order. -/
def Trace.events (t : Trace) : List Event :=
  t.actions.filterMap Action.event?

/-- The issues of a trace in order. -/
def Trace.issues (t : Trace) : List Issue :=
  t.actions.filterMap Action.issue?

end Markup
