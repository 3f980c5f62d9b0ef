import Markup.Writer

/-!
# Listeners of several kinds

The listeners of a session have one type. `AnyListener` joins the kinds that there are, so that a
collector, a writer and a breakpoint can listen to one parse, together with a listener that only
listens.
-/

namespace Markup

/-- A listener of any kind. -/
inductive AnyListener where
  /-- Collects the events. -/
  | collector (c : Collector)
  /-- Writes the events as markup. -/
  | writer (w : Writer)
  /-- Stops the parse. -/
  | breakpoint (b : Breakpoint)
  /-- Does nothing. -/
  | silent
  deriving DecidableEq

namespace AnyListener

/-- Hands an event to the listener inside. -/
def receive : AnyListener → Event → AnyListener × Reaction
  | collector c, event =>
    let (c, reaction) := Listener.receive c event
    (collector c, reaction)
  | writer w, event =>
    let (w, reaction) := Listener.receive w event
    (writer w, reaction)
  | breakpoint b, event =>
    let (b, reaction) := Listener.receive b event
    (breakpoint b, reaction)
  | silent, _ => (silent, .proceed)

instance : Listener AnyListener := ⟨receive⟩

end AnyListener

end Markup
