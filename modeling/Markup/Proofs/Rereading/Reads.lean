import Markup.Proofs.Reader.Traversal

/-!
# Reading given characters

`Reads g v events causes w` says that the reader gets from every state that looks like `v` to one
that looks like `w`, with these events and problems on the way, where a state looks like its mode,
its document and the characters to come. How the input holds its characters, and which line it is
at, does not matter to what is read. Such a reading is a traversal of all that is to come
(`reads_iff_traverses`).

A step is read by one of two lemmas: it takes the next character (`Reads.take`) or leaves it
(`Reads.leave`). Readings are joined by `Reads.trans`.
-/

namespace Markup.Reader

/-- A state looks like this. -/
structure State.Shows (s : State) (v : View) : Prop where
  /-- It is in the mode. -/
  mode : s.mode = v.mode
  /-- It has read the document. -/
  document : s.document = v.document
  /-- These characters are to come, and no read fails. -/
  input : s.input.upcoming = v.ahead.map .ok

/-- The reader gets from one view to another, with these events and problems. -/
def Reads (g : Grammar) (v : View) (events : List Event) (causes : List IssueCause) (w : View) :
    Prop :=
  ∀ s : State, s.Shows v → ∃ actions t, Reaches g s actions t ∧ t.Shows w ∧
    actionEvents actions = events ∧ actionCauses actions = causes

variable {g : Grammar} {mode mode' : Mode} {d d' : Document} {c : Char} {cs : List Char}
  {events more : List Event} {causes others : List IssueCause} {u v w : View}

/-- What is read is traversed with nothing to come after it. -/
theorem reads_iff_traverses :
    Reads g v events causes w ↔ Traverses (.before []) g v events causes w := by
  have hshows (s : State) (v : View) : s.Shows v ↔ s.Displays (.before []) v := by
    constructor
    · rintro ⟨hmode, hdocument, hinput⟩
      exact ⟨hmode, hdocument, hinput.trans (List.append_nil _).symm⟩
    · rintro ⟨hmode, hdocument, hinput⟩
      exact ⟨hmode, hdocument, hinput.trans (List.append_nil _)⟩
  simp only [Reads, Traverses, hshows]

namespace Reads

/-- Nothing need be read. -/
theorem refl (v : View) : Reads g v [] [] v :=
  reads_iff_traverses.2 (.refl v)

/-- What is read in two parts is read as a whole. -/
theorem trans (h : Reads g u events causes v) (h' : Reads g v more others w) :
    Reads g u (events ++ more) (causes ++ others) w :=
  reads_iff_traverses.2 ((reads_iff_traverses.1 h).trans (reads_iff_traverses.1 h'))

/-- A reading after one without events or problems. -/
theorem after (h : Reads g u [] [] v) (h' : Reads g v events causes w) :
    Reads g u events causes w :=
  h.trans h'

/-- A reading before one without events or problems. -/
theorem before (h : Reads g u events causes v) (h' : Reads g v [] [] w) :
    Reads g u events causes w :=
  reads_iff_traverses.2 ((reads_iff_traverses.1 h).before (reads_iff_traverses.1 h'))

/-- A step that takes the next character. -/
theorem take
    (h : ∀ input : Input, ∃ actions,
      stepOn g ⟨input, mode, d⟩ (some c) = (actions, .running ⟨input.consume, mode', d'⟩) ∧
        actionEvents actions = events ∧ actionCauses actions = causes) :
    Reads g ⟨mode, d, c :: cs⟩ events causes ⟨mode', d', cs⟩ :=
  reads_iff_traverses.2 (.take (fun _ => rfl) h)

/-- A step that leaves the next character. -/
theorem leave
    (h : ∀ input : Input, ∃ actions,
      stepOn g ⟨input, mode, d⟩ (some c) = (actions, .running ⟨input, mode', d'⟩) ∧
        actionEvents actions = events ∧ actionCauses actions = causes) :
    Reads g ⟨mode, d, c :: cs⟩ events causes ⟨mode', d', c :: cs⟩ :=
  reads_iff_traverses.2 (.leave (fun _ => rfl) Feed.ends_of_cons h)

/-- A step that takes the next character and does nothing else but change the mode and the text. -/
theorem take_quiet
    (h : ∀ input : Input,
      stepOn g ⟨input, mode, d⟩ (some c) = ([], .running ⟨input.consume, mode', d'⟩)) :
    Reads g ⟨mode, d, c :: cs⟩ [] [] ⟨mode', d', cs⟩ :=
  take fun input => ⟨[], h input, rfl, rfl⟩

end Reads

/-- A document that reads to its end in text, and the trace of reading it. -/
theorem exists_trace_of_reads {source : List Char} {place : Place}
    (h : Reads g ⟨.text .content, .start, source⟩ events causes ⟨.text place, d, []⟩) :
    ∃ line actions, read g (source.map .ok) = ⟨actions ++ (d.finish line).2, .finished⟩ ∧
      actionEvents actions = events ∧ actionCauses actions = causes := by
  obtain ⟨actions, t, hreach, ht, hevents, hcauses⟩ := h (.start g (source.map .ok))
    ⟨rfl, rfl, Input.upcoming_ofSource _ _⟩
  have hdisplays : t.Displays (.before []) ⟨.text place, d, []⟩ :=
    ⟨ht.mode, ht.document, ht.input⟩
  obtain ⟨line, hfinish⟩ := exists_finish hdisplays
  refine ⟨line, actions, ?_, hevents, hcauses⟩
  unfold read
  rw [hreach.run_eq, hfinish]
  rfl

end Markup.Reader
