import Markup.Proofs.Events.Nested
import Markup.Proofs.Reader.Delivery
import Markup.Proofs.Session.Recorder

/-!
# Documents are delivered properly nested

Whatever a session has been through and whoever listens, what a listener hears of a parse is nested
once the end tags of elements that are not declared are left out: all of it and the end of the
document if the parse succeeds, and a part from the start otherwise.
-/

namespace Markup

/-- The events of a whole document: it ends once, and the events before that are nested. -/
def IsDocument (d : Dtd) (events : List Event) : Prop :=
  ∃ body, events = body ++ [.finished] ∧ .finished ∉ body ∧ Nested (declaredEvents d body)

/-- The events of a document that was not read, or not delivered, to its end. -/
def BeginsDocument (d : Dtd) (events : List Event) : Prop :=
  ∃ word, Nested word ∧ declaredEvents d events <+: word ++ [.finished]

/-- End tags without a declared element are delivered only where the dialect has them made up. -/
def MadeUpByRule (g : Grammar) (events : List Event) : Prop :=
  ∀ event ∈ events, event.isUndeclaredEnd g.dtd = true → g.dialect.unknownEndTags = .synthesize

variable {g : Grammar} {source : Source}

/-- The events of a document that is read to its end. -/
theorem isDocument_read (h : (Reader.read g source).outcome = .finished) :
    IsDocument g.dtd (Reader.read g source).events := by
  obtain ⟨body, causes, d, hregular, hstack, -, hevents⟩ := Reader.ends_read h
  have hnested : Closes [] (declaredEvents g.dtd (body ++ [])) := by
    apply hregular.closes OpenElements.sound_none
    rw [hstack]
    exact Nested.nil
  rw [List.append_nil] at hnested
  exact ⟨body, hevents, hregular.finished_not_mem, hnested⟩

/-- The events of any document begin one. -/
theorem beginsDocument_read (g : Grammar) (source : Source) :
    BeginsDocument g.dtd (Reader.read g source).events := by
  cases houtcome : (Reader.read g source).outcome with
  | finished =>
    obtain ⟨body, hevents, -, hnested⟩ := isDocument_read houtcome
    rw [hevents]
    refine ⟨_, hnested, ?_⟩
    rw [declaredEvents_append]
    exact List.prefix_refl _
  | failed failure =>
    obtain ⟨causes, d, hregular⟩ := Reader.regular_read houtcome
    obtain ⟨word, hnested, hword⟩ := hregular.exists_nested OpenElements.sound_none rfl
    exact ⟨word, hnested, hword.trans (List.prefix_append _ _)⟩

/-- Reading makes up end tags only by the rule. -/
theorem madeUpByRule_read (g : Grammar) (source : Source) :
    MadeUpByRule g (Reader.read g source).events := by
  intro event hevent hundeclared
  cases houtcome : (Reader.read g source).outcome with
  | finished =>
    obtain ⟨body, causes, d, hregular, -, -, hevents⟩ := Reader.ends_read houtcome
    rw [hevents] at hevent
    rcases List.mem_append.1 hevent with hevent | hevent
    · exact hregular.synthesize_of_mem OpenElements.sound_none hevent hundeclared
    · rw [List.mem_singleton.1 hevent] at hundeclared
      cases hundeclared
  | failed failure =>
    obtain ⟨causes, d, hregular⟩ := Reader.regular_read houtcome
    exact hregular.synthesize_of_mem OpenElements.sound_none hevent hundeclared

/-- A part from the start of what begins a document begins it as well. -/
theorem BeginsDocument.mono {d : Dtd} {events more : List Event} (h : BeginsDocument d more)
    (hpart : events <+: more) : BeginsDocument d events := by
  obtain ⟨word, hnested, hword⟩ := h
  exact ⟨word, hnested, (declaredEvents_mono hpart).trans hword⟩

/-- What each listener hears of a parse is properly nested. -/
theorem hears_nested_of_parse {α : Type} [Listener α] (s : Session (Recorder α)) (source : Source) :
    List.Forall₂
      (Recorder.Hears fun heard => MadeUpByRule s.grammar heard ∧
        match (s.parse source).2 with
        | .ok () => IsDocument s.grammar.dtd heard
        | .error _ => BeginsDocument s.grammar.dtd heard)
      s.listeners (s.parse source).1.listeners := by
  obtain ⟨hpart, hwhole⟩ := Session.hears_performTrace { s with log := s.log.clear }
    (Reader.read s.grammar source)
  have hrule := madeUpByRule_read s.grammar source
  show List.Forall₂ _ s.listeners
    (Session.performTrace { s with log := s.log.clear } (Reader.read s.grammar source)).1.listeners
  split
  · -- without an error everything that was read has been heard
    rename_i hresult
    obtain ⟨hfinished, hall⟩ := hwhole hresult
    refine Recorder.Hears.imp (fun heard hheard => ?_) hall
    rw [hheard]
    exact ⟨hrule, isDocument_read hfinished⟩
  · refine Recorder.Hears.imp (fun heard hheard => ⟨fun event hevent => ?_, ?_⟩) hpart
    · exact hrule event (hheard.subset hevent)
    · exact (beginsDocument_read s.grammar source).mono hheard

end Markup
