import Markup.Listener
import Markup.Log
import Markup.Reader.Run

/-!
# Parsing for listeners

A session parses documents one after another for the same listeners. It performs the actions of a
trace: an event goes to the listeners in the order of their registration until one of them aborts
the parse, a checkpoint ends the parse when the token has been triggered, an issue is recorded and
logged. Issues, listeners and the token outlive a parse.
-/

namespace Markup

/-- Why a parse did not reach the end of its document. -/
inductive ParseError where
  /-- A read failed. -/
  | unreadable (failure : ReadFailure)
  /-- A listener aborted the parse. -/
  | aborted (reason : String)
  /-- The token had been triggered. -/
  | cancelled
  deriving DecidableEq, Repr

/-- The wording of an error. -/
def ParseError.message : ParseError → String
  | unreadable failure => "failed to read input: " ++ failure.message
  | aborted reason => "parse aborted by listener: " ++ reason
  | cancelled => "parse cancelled"

/-- Hands an event to listeners in order, up to the first that aborts. Gives the listeners after
the event, whether one of them triggered the token, and the reason of the abort. -/
def deliver {α : Type} [Listener α] (event : Event) : List α → List α × Reaction
  | [] => ([], .proceed)
  | x :: xs =>
    let (x, reaction) := Listener.receive x event
    match reaction.abort? with
    | some _ => (x :: xs, reaction)
    | none =>
      let (xs, others) := deliver event xs
      (x :: xs, ⟨reaction.cancels || others.cancels, others.abort?⟩)

/-- A parser with its listeners and all that it has recorded. -/
structure Session (α : Type) where
  /-- What documents are read by. -/
  grammar : Grammar
  /-- Whether the parser looks at the token. -/
  cancellable : Bool
  /-- The listeners in the order of their registration. -/
  listeners : List α
  /-- Whether the token has been triggered. -/
  cancelled : Bool
  /-- The issues recorded and not taken, the last one first. -/
  recorded : List Issue
  /-- The log. -/
  log : Log

namespace Session

variable {α : Type} [Listener α]

/-- A session in which nothing has been parsed. -/
def start (grammar : Grammar) (listeners : List α) (cancellable : Bool) : Session α :=
  ⟨grammar, cancellable, listeners, false, [], .empty⟩

/-- The issues recorded and not taken, in order. -/
def issues (s : Session α) : List Issue :=
  s.recorded.reverse

/-- The component that the warnings of the parser come from. -/
def component : String := "SGML"

/-- Performs one action; an error ends the parse. -/
def perform (s : Session α) : Action → Session α × Option ParseError
  | .checkpoint => (s, if s.cancellable && s.cancelled then some .cancelled else none)
  | .deliver event =>
    let (listeners, reaction) := deliver event s.listeners
    ({ s with listeners, cancelled := s.cancelled || reaction.cancels },
      reaction.abort?.map .aborted)
  | .report issue =>
    let (log, _) := s.log.warnOnce component issue.cause.message
    ({ s with log, recorded := issue :: s.recorded }, none)
  | .note remark => ({ s with log := s.log.debug remark }, none)

/-- Performs actions up to the first error. -/
def performAll (s : Session α) : List Action → Session α × Option ParseError
  | [] => (s, none)
  | action :: actions =>
    match s.perform action with
    | (s, none) => s.performAll actions
    | (s, some error) => (s, some error)

/-- Performs a trace. -/
def performTrace (s : Session α) (t : Trace) : Session α × Except ParseError Unit :=
  match s.performAll t.actions with
  | (s, some error) => (s, .error error)
  | (s, none) =>
    match t.outcome with
    | .finished => (s, .ok ())
    | .failed failure => (s, .error (.unreadable failure))

/-- Parses a document. Warnings of earlier parses are written again. -/
def parse (s : Session α) (source : Source) : Session α × Except ParseError Unit :=
  { s with log := s.log.clear }.performTrace (Reader.read s.grammar source)

/-- Takes the recorded issues and leaves none behind. -/
def takeIssues (s : Session α) : Session α × List Issue :=
  ({ s with recorded := [] }, s.issues)

/-- Registers a listener after those registered before. -/
def addListener (s : Session α) (listener : α) : Session α :=
  { s with listeners := s.listeners ++ [listener] }

/-- Triggers the token. -/
def cancel (s : Session α) : Session α :=
  { s with cancelled := true }

/-- Writes a warning from any component, unless it has been written already. -/
def warnOnce (s : Session α) (component message : String) : Session α × Bool :=
  let (log, isNew) := s.log.warnOnce component message
  ({ s with log }, isNew)

/-- Lets all warnings be written again. -/
def clearWarnings (s : Session α) : Session α :=
  { s with log := s.log.clear }

/-- Takes the lines of the log and leaves none behind. -/
def takeLog (s : Session α) : Session α × List LogLine :=
  ({ s with log := { s.log with written := [] } }, s.log.lines)

end Session

end Markup
