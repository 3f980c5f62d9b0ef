import Markup.Proofs.Events.Operations
import Markup.Writer

/-!
# Listeners that ask for nothing

A parse for listeners that ask for nothing gets as far as the reading of its document: each listener
receives all events, all issues are recorded, and the parse succeeds if the document is read to its
end (`parse_of_passive`). Collectors and writers are such listeners, so collecting the events of a
document (`collect_eq`) and normalizing it (`normalize_eq`) are described by its trace.
-/

namespace Markup

/-- Listeners that never ask for the end of a parse. -/
def Passive (α : Type) [Listener α] : Prop :=
  ∀ (x : α) (event : Event), (Listener.receive x event).2 = .proceed

/-- A collector asks for nothing. -/
theorem passive_collector : Passive Collector := fun _ _ => rfl

/-- A writer asks for nothing. -/
theorem passive_writer : Passive Writer := fun _ _ => rfl

/-- A listener after a list of events. -/
def receiveAll {α : Type} [Listener α] (x : α) (events : List Event) : α :=
  events.foldl (fun x event => (Listener.receive x event).1) x

/-- How a parse ends for listeners that ask for nothing. -/
def resultOf : Outcome → Except ParseError Unit
  | .finished => .ok ()
  | .failed failure => .error (.unreadable failure)

variable {α : Type} [Listener α]

/-- An event gets to all listeners. -/
theorem deliver_of_passive (h : Passive α) (event : Event) (xs : List α) :
    deliver event xs = (xs.map fun x => (Listener.receive x event).1, .proceed) := by
  induction xs with
  | nil => rfl
  | cons x xs ih =>
    have hx := h x event
    unfold deliver
    simp only [ih, hx]
    rfl

namespace Session

/-- Actions are performed to the last one. -/
theorem performAll_of_passive (h : Passive α) (actions : List Action) (s : Session α)
    (hcancel : s.cancellable = false) :
    (s.performAll actions).2 = none ∧
      (s.performAll actions).1.listeners =
        s.listeners.map (receiveAll · (actionEvents actions)) ∧
      (s.performAll actions).1.issues = s.issues ++ actions.filterMap Action.issue? := by
  induction actions generalizing s with
  | nil => exact ⟨rfl, (List.map_id' _).symm, (List.append_nil _).symm⟩
  | cons action actions ih =>
    unfold performAll
    cases action with
    | checkpoint =>
      simp only [perform, hcancel]
      exact ih s hcancel
    | deliver event =>
      -- no listener asks for the end, so the rest is performed for the changed listeners
      simp only [perform, deliver_of_passive h]
      obtain ⟨hresult, hlisteners, hissues⟩ := ih
        { s with
          listeners := s.listeners.map fun x => (Listener.receive x event).1
          cancelled := s.cancelled || Reaction.proceed.cancels } hcancel
      refine ⟨hresult, ?_, hissues⟩
      refine hlisteners.trans ?_
      rw [List.map_map]
      rfl
    | report issue =>
      simp only [perform]
      obtain ⟨hresult, hlisteners, hissues⟩ := ih
        { s with
          log := (s.log.warnOnce component issue.cause.message).1
          recorded := issue :: s.recorded } hcancel
      refine ⟨hresult, hlisteners, ?_⟩
      refine hissues.trans ?_
      simp [issues, Action.issue?]
    | note remark =>
      simp only [perform]
      exact ih { s with log := s.log.debug remark } hcancel

/-- A parse does all that reading the document does. -/
theorem parse_of_passive (h : Passive α) (s : Session α) (hcancel : s.cancellable = false)
    (source : Source) :
    (s.parse source).1.listeners =
        s.listeners.map (receiveAll · (Reader.read s.grammar source).events) ∧
      (s.parse source).1.issues = s.issues ++ (Reader.read s.grammar source).issues ∧
      (s.parse source).2 = resultOf (Reader.read s.grammar source).outcome := by
  obtain ⟨hresult, hlisteners, hissues⟩ := performAll_of_passive h
    (Reader.read s.grammar source).actions { s with log := s.log.clear } hcancel
  unfold parse performTrace
  split
  · rename_i hperform
    rw [hperform] at hresult
    cases hresult
  · rename_i t hperform
    rw [hperform] at hlisteners hissues
    cases (Reader.read s.grammar source).outcome with
    | finished => exact ⟨hlisteners, hissues, rfl⟩
    | failed failure => exact ⟨hlisteners, hissues, rfl⟩

end Session

/-! ## Collectors and writers -/

/-- Parses a document for a collector: the events, the issues and whether the parse reached the end
of the document. -/
def collect (g : Grammar) (source : Source) :
    List Event × List Issue × Except ParseError Unit :=
  let (session, result) := (Session.start g [Collector.empty] false).parse source
  (session.listeners.flatMap Collector.events, session.issues, result)

/-- A collector has all events that it received. -/
theorem events_receiveAll (c : Collector) (events : List Event) :
    (receiveAll c events).events = c.events ++ events := by
  induction events generalizing c with
  | nil => exact (List.append_nil _).symm
  | cons event events ih =>
    show (receiveAll (Listener.receive c event).1 events).events = _
    rw [ih, Collector.events_receive, List.append_assoc]
    rfl

/-- What is collected from a document is what reading it delivers. -/
theorem collect_eq (g : Grammar) (source : Source) :
    collect g source =
      ((Reader.read g source).events, (Reader.read g source).issues,
        resultOf (Reader.read g source).outcome) := by
  obtain ⟨hlisteners, hissues, hresult⟩ := Session.parse_of_passive passive_collector
    (Session.start g [Collector.empty] false) rfl source
  unfold collect
  simp only [hlisteners, hissues, hresult]
  show ((receiveAll Collector.empty (Reader.read g source).events).events ++ [], _, _) = _
  rw [List.append_nil, events_receiveAll]
  rfl

/-- What a document is normalized to is the markup of what reading it delivers. -/
theorem normalize_eq (g : Grammar) (source : Source) :
    normalize g source =
      (Writer.markup (Reader.read g source).events, (Reader.read g source).issues,
        resultOf (Reader.read g source).outcome) := by
  obtain ⟨hlisteners, hissues, hresult⟩ := Session.parse_of_passive passive_writer
    (Session.start g [Writer.empty] false) rfl source
  unfold normalize
  simp only [hlisteners, hissues, hresult]
  show (String.join [(receiveAll Writer.empty (Reader.read g source).events).output], _, _) = _
  rw [String.join_cons, String.join_nil, String.append_empty]
  rfl

end Markup
