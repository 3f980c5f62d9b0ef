import Markup.AnyListener
import Markup.Proofs.Reader.Sources
import Markup.Proofs.Session.Interruption
import Markup.Proofs.Session.Passive

/-!
# A parse that fails is a part of one that does not

Whatever ends a parse early, it has done nothing but a part, from the start, of what the parse of
the whole document does for a listener that asks for nothing (`parse_truncates`): a source that
fails is read up to its failure like the whole document (`Reader.read_truncates`), and the actions
of the reading are performed in order up to the one that an abort or a cancellation ends
(`Session.exists_interruption`).
-/

namespace Markup

variable {α : Type} [Listener α]

/-- For a text, or a source that gives its characters up to a failure, and for any listeners, with
or without a token: let a collector alone have received `events` of the text, with `issues`. What a
listener hears and what is recorded of a parse is a part of this from the start, a listener is at
most one event ahead of those after it, and nothing is missing if the parse succeeds. -/
theorem parse_truncates (s : Session α) (text : String) {source : Source}
    (h : source.Truncates (.ofText text)) :
    ∃ events issues, collect s.grammar (.ofText text) = (events, issues, .ok ()) ∧
      (s.heard source).length = s.listeners.length ∧
      (∀ heard ∈ s.heard source, heard <+: events) ∧
      (s.heard source).Pairwise Leads ∧
      (∃ recorded, (s.parse source).1.issues = s.issues ++ recorded ∧ recorded <+: issues ∧
        ((s.parse source).2 = .ok () → recorded = issues)) ∧
      ((s.parse source).2 = .ok () → ∀ heard ∈ s.heard source, heard = events) := by
  have htrace : (Reader.read s.grammar source).Truncates (Reader.read s.grammar (.ofText text)) :=
    Reader.read_truncates h
  -- the parse performs the trace of the source for listeners with empty records
  set r : Session (Recorder α) := { s.recording with log := s.log.clear }
  have hparse : s.recording.parse source = r.performTrace (Reader.read s.grammar source) := rfl
  have hempty : ∀ x ∈ r.listeners, x.events = [] := by
    intro x hx
    obtain ⟨y, -, rfl⟩ := List.mem_map.1 hx
    rfl
  have hheard : s.heard source =
      (r.performAll (Reader.read s.grammar source).actions).1.listeners.map Recorder.events := by
    rw [Session.heard, hparse, Session.performTrace_fst]
  have hissues : (s.parse source).1.issues =
      (r.performAll (Reader.read s.grammar source).actions).1.issues := by
    rw [Session.parse_recording, hparse, Session.performTrace_fst]
    rfl
  have hok (hresult : (s.parse source).2 = .ok ()) :
      (r.performAll (Reader.read s.grammar source).actions).2 = none ∧
        (Reader.read s.grammar source).outcome = .finished := by
    rw [Session.parse_recording, hparse] at hresult
    exact Session.completed_of_ok hresult
  obtain ⟨hpart, hwhole⟩ := r.hears_performAll (Reader.read s.grammar source).actions
  obtain ⟨recorded, hrecorded, hfirst, hall⟩ :=
    r.issues_performAll (Reader.read s.grammar source).actions
  refine ⟨(Reader.read s.grammar (.ofText text)).events,
    (Reader.read s.grammar (.ofText text)).issues, ?_, ?_, ?_, ?_, ⟨recorded, ?_, ?_, ?_⟩, ?_⟩
  · rw [collect_eq, Reader.outcome_ofText]
    rfl
  · rw [hheard, List.length_map, Session.length_listeners_performAll]
    exact List.length_map _
  · intro heard hmem
    rw [hheard] at hmem
    obtain ⟨x, hx, rfl⟩ := List.mem_map.1 hmem
    exact (Session.forall_of_hears hpart hempty x hx).trans (htrace.actions.filterMap _)
  · rw [hheard]
    exact List.pairwise_map.2 (Session.inTurn_performAll hempty _)
  · rw [hissues, hrecorded]
    rfl
  · exact hfirst.trans (htrace.actions.filterMap _)
  · intro hresult
    obtain ⟨hcompleted, hfinished⟩ := hok hresult
    rw [hall hcompleted, ← htrace.whole hfinished]
    rfl
  · intro hresult heard hmem
    obtain ⟨hcompleted, hfinished⟩ := hok hresult
    rw [hheard] at hmem
    obtain ⟨x, hx, rfl⟩ := List.mem_map.1 hmem
    rw [Session.forall_of_hears (hwhole hcompleted) hempty x hx, ← htrace.whole hfinished]
    rfl

/-- Documents of one element with text. -/
def leaflet : Grammar where
  dtd := (Dtd.ofRoot "D").addElement (.ofName "D" .pcdata)
  dialect := .strict

/-- A collector before and after a listener that cancels the parse at the first text. -/
def leafletSession : Session AnyListener :=
  .start leaflet [.collector .empty, .breakpoint ⟨.characterData, 1, 0, .cancel⟩,
    .collector .empty] true

/-- What is delivered of a leaflet. The end tag of no declared element is left out. -/
def leafletEvents : List Event :=
  [.startTag (.ofName "D" .pcdata) .empty, .characterData "ab" false, .endTag (.ofName "D" .pcdata),
    .finished]

/-- A leaflet whose source fails after nine characters, before its text is delivered. -/
theorem parse_truncates_leaflet :
    (Source.failingAt (.ofText "<D>a</X>b</D>") 9 (.interrupted .timedOut "late")).Truncates
        (.ofText "<D>a</X>b</D>") ∧
      (∃ issues, collect leaflet (.ofText "<D>a</X>b</D>") = (leafletEvents, issues, .ok ())) ∧
      leafletSession.heard
          (Source.failingAt (.ofText "<D>a</X>b</D>") 9 (.interrupted .timedOut "late")) =
        List.replicate 3 [.startTag (.ofName "D" .pcdata) .empty] ∧
      ∀ heard ∈ leafletSession.heard
        (Source.failingAt (.ofText "<D>a</X>b</D>") 9 (.interrupted .timedOut "late")),
        heard <+: leafletEvents := by
  have htruncates := Source.truncates_failingAt "<D>a</X>b</D>".toList 9
    (.interrupted .timedOut "late")
  have hread : (Reader.read leaflet (.ofText "<D>a</X>b</D>")).events = leafletEvents :=
    Reader.shows_of_runWithin Trace.events 40 (by decide +kernel)
  obtain ⟨events, issues, hcollect, -, hpart, -⟩ :=
    parse_truncates leafletSession "<D>a</X>b</D>" htruncates
  obtain rfl : events = leafletEvents := by
    rw [← hread]
    exact (congrArg Prod.fst hcollect).symm.trans (congrArg Prod.fst (collect_eq leaflet _))
  refine ⟨htruncates, ⟨issues, hcollect⟩, ?_, hpart⟩
  exact Reader.shows_of_runWithin (fun t => (({ leafletSession.recording with
    log := leafletSession.log.clear } : Session (Recorder AnyListener)).performTrace
      t).1.listeners.map Recorder.events) 40 (by decide +kernel)

end Markup
