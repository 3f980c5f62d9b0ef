import Markup.Proofs.Input.LineCount
import Markup.Proofs.Reader.IssueLines
import Markup.Proofs.Reader.Parallel
import Markup.Proofs.Session.Passive

/-!
# Line numbers

The line of an input is one more than the line ends of the source that have been read, and issues
are reported on that line (`lines_counted`). There is one exception: a line end that was looked at
before an entity was expanded is counted with the first character of the replacement text, though
it has not been read (`line_overtaken`).
-/

namespace Markup

open Input

/-! ## Inputs of a source -/

/-- Operations that put nothing back lead from the start of a source to an input. -/
structure Input.Performed (source : Source) (maxDepth : Nat) (ops : List Operation) (i : Input) :
    Prop where
  /-- Nothing is put back. -/
  keeps : ∀ op ∈ ops, op.isUnread = false
  /-- The operations lead there. -/
  leads : ((ofSource source maxDepth).performAll ops).2 = i

/-- What operations have shown of a source. -/
def Input.ledger (source : Source) (maxDepth : Nat) (ops : List Operation) : Ledger :=
  .ofAnswers ((ofSource source maxDepth).performAll ops).1

/-- After operations on a source the lines are counted. -/
structure Input.Counted (source : Source) (maxDepth : Nat) (ops : List Operation) (i : Input) :
    Prop where
  /-- What has been read of the source, and the character that has been looked at, come before what
  is left of it. -/
  shown : source.characters = (ledger source maxDepth ops).taken ++
    ((ledger source maxDepth ops).seen.toList ++ i.source.characters)
  /-- The line ends that have been read are counted, and one that is overtaken. -/
  line : i.line = 1 + (ledger source maxDepth ops).taken.count '\n' +
    (ledger source maxDepth ops).overtaken.toNat
  /-- A line end is overtaken only if it has been looked at, and an entity has been expanded
  since. -/
  overtaken : (ledger source maxDepth ops).overtaken = true →
    (ledger source maxDepth ops).seen = some '\n' ∧
      Ledger.Interposed ((ofSource source maxDepth).performAll ops).1

namespace Input

variable {source : Source} {maxDepth : Nat} {ops : List Operation} {i j : Input}

/-- Operations may be performed in two parts. -/
theorem performAll_append (i : Input) (ops more : List Operation) :
    (i.performAll (ops ++ more)).2 = ((i.performAll ops).2.performAll more).2 := by
  induction ops generalizing i with
  | nil => rfl
  | cons op ops ih => exact ih (i.perform op).2

/-- Where nothing is to come, nothing is put back or buffered. -/
theorem buffer_of_upcoming_nil (h : i.upcoming = []) : i.pushback = none ∧ i.buffer = [] := by
  obtain ⟨hpushback, htext, -⟩ : i.pushback = none ∧ expansionsText i.expansions = [] ∧
      i.source = [] := by
    simpa [upcoming] using h
  refine ⟨hpushback, ?_⟩
  rw [buffer, hpushback, htext]
  rfl

namespace Performed

/-- An operation more is performed. -/
theorem perform (h : Performed source maxDepth ops i) (op : Operation)
    (hop : op.isUnread = false) : Performed source maxDepth (ops ++ [op]) (i.perform op).2 := by
  refine ⟨fun other hother => ?_, ?_⟩
  · rcases List.mem_append.1 hother with hmem | hmem
    · exact h.keeps other hmem
    · rw [List.mem_singleton.1 hmem]
      exact hop
  · rw [performAll_append, h.leads]
    rfl

/-- Performed operations are followed by the ledger. -/
theorem follows (h : Performed source maxDepth ops i) :
    Follows source (ledger source maxDepth ops) i := by
  have hfollows := follows_performAll source maxDepth h.keeps
  rwa [h.leads] at hfollows

/-- Performed operations leave the lines counted. -/
theorem counted (h : Performed source maxDepth ops i) : Counted source maxDepth ops i :=
  ⟨h.follows.source, h.follows.line,
    fun htaken => ⟨h.follows.overtaken htaken, (Ledger.waits_ofAnswers _).overtaken htaken⟩⟩

/-- Taking what has been looked at is a read, or nothing at the end of the input. -/
theorem exists_after {c? : Option Char} (h : Performed source maxDepth ops i)
    (hpeek : i.peek = (.ok c?, j)) (takes : Bool) :
    ∃ ops, Performed source maxDepth ops (j.after takes) := by
  have hlook := h.perform .peek rfl
  simp only [Input.perform, hpeek] at hlook
  cases takes with
  | false => exact ⟨_, hlook⟩
  | true =>
    cases c? with
    | some c =>
      have hread := read_of_peek (peek_of_pushback (pushback_of_peek hpeek))
      have htake := hlook.perform .read rfl
      simp only [Input.perform, hread] at htake
      exact ⟨_, htake⟩
    | none =>
      have hspec := i.peek_spec
      rw [hpeek] at hspec
      obtain ⟨hpushback, hbuffer⟩ := buffer_of_upcoming_nil hspec.2
      have hpending := (hlook.follows.of_buffer_nil hbuffer).2.2.2
      have hsame : j.consume = j := by
        rw [consume, ← hpushback, countLine_of_not_pending hpending]
      exact ⟨_, by rw [after_true, hsame]; exact hlook⟩

end Performed

end Input

/-! ## Inputs of the reader -/

namespace Reader

variable {g : Grammar} {source : Source} {s t : State} {actions : List Action} {issue : Issue}
  {i : Input}

/-- An input after operations is looked at by the reader. -/
theorem performed_looked {maxDepth : Nat} {ops : List Operation}
    (h : Performed source maxDepth ops s.input) :
    Performed source maxDepth (ops ++ [.hold s.mode.isHeld] ++ [.peek]) s.looked :=
  (h.perform (.hold s.mode.isHeld) rfl).perform .peek rfl

/-- The reader only reads, looks, expands entities and holds the input. -/
theorem exists_performed (h : Reaches g (.start g source) actions s) :
    ∃ ops, Performed source g.dialect.maxDepth ops s.input := by
  refine h.invariant (P := fun s => ∃ ops, Performed source g.dialect.maxDepth ops s.input) ?_
    ⟨[], nofun, rfl⟩
  rintro s t actions ⟨ops, hops⟩ hstep
  obtain ⟨c?, hpeek, -⟩ := exists_peek_of_running hstep
  have hheld := hops.perform (.hold s.mode.isHeld) rfl
  obtain ⟨takes, ⟨hinput, -⟩ | ⟨name, entity, -, -, -, hpush⟩⟩ := running_cases hstep
  · rw [hinput]
    exact hheld.exists_after hpeek takes
  · obtain ⟨more, hmore⟩ := hheld.exists_after hpeek takes
    have hentity := hmore.perform (.push name entity.replacement) rfl
    simp only [Input.perform, hpush] at hentity
    exact ⟨_, hentity⟩

/-! ## Issues -/

/-- The reader reports an issue of a source when it has come to an input. -/
inductive Reports (g : Grammar) (source : Source) (issue : Issue) : Input → Prop
  /-- It goes on. -/
  | running {s t : State} {before actions : List Action} :
      Reaches g (.start g source) before s → step g s = (actions, .running t) →
      .report issue ∈ actions → Reports g source issue t.input
  /-- It stops. -/
  | stopped {s : State} {before actions : List Action} {outcome : Outcome} :
      Reaches g (.start g source) before s → step g s = (actions, .stopped outcome) →
      .report issue ∈ actions → Reports g source issue s.looked

/-- Every issue of a document is reported at some input. -/
theorem exists_reports (h : issue ∈ (read g source).issues) : ∃ i, Reports g source issue i := by
  obtain ⟨before, s, hreach, hmem⟩ := exists_step_of_read (Trace.report_mem h)
  rcases hstep : step g s with ⟨actions, t | outcome⟩
  · rw [hstep] at hmem
    exact ⟨t.input, .running hreach hstep hmem⟩
  · rw [hstep] at hmem
    exact ⟨s.looked, .stopped hreach hstep hmem⟩

/-- An issue names the line of the input where it is reported. -/
theorem line_of_reports (h : Reports g source issue i) : issue.line = i.line := by
  cases h with
  | @running s t _ _ _ hstep hissue =>
    obtain ⟨c?, -, hstepOn⟩ := exists_peek_of_running hstep
    have hlocated := located_stepOn g ⟨s.looked, s.mode, s.document⟩ c?
    rw [hstepOn] at hlocated
    exact hlocated issue hissue
  | @stopped s _ _ _ _ hstep hissue =>
    rcases hpeek : (s.input.hold s.mode.isHeld).peek with ⟨failure | c?, j⟩
    · -- a step that fails does nothing else
      rw [step, hpeek] at hstep
      cases hstep
      cases hissue
    · have hlooked : s.looked = j := congrArg Prod.snd hpeek
      rw [step_of_peek hpeek] at hstep
      have hlocated := located_stepOn g ⟨j, s.mode, s.document⟩ c?
      rw [hstep] at hlocated
      rw [hlooked]
      exact hlocated issue hissue

/-- It is an input of the source. -/
theorem performed_of_reports (h : Reports g source issue i) :
    ∃ ops, Performed source g.dialect.maxDepth ops i := by
  cases h with
  | running hreach hstep _ => exact exists_performed (hreach.trans (.single hstep))
  | stopped hreach _ _ =>
    obtain ⟨ops, hops⟩ := exists_performed hreach
    exact ⟨_, performed_looked hops⟩

/-- An entity whose replacement text has an issue. -/
def undefinedTag : Grammar where
  dtd := (Dtd.ofRoot "D").addEntity ⟨"e", "<zz>"⟩
  dialect := .strict

end Reader

/-! ## The lines of a source -/

/-- Whatever is read of a source, looked at and expanded, the line of the input is one more than the
line ends of the source that have been read, except while one that has been looked at is overtaken.
Every issue of a document names the line of the input when it is reported. -/
theorem lines_counted (source : Source) :
    (∀ maxDepth ops i, Performed source maxDepth ops i → Counted source maxDepth ops i) ∧
      ∀ g, ∀ issue ∈ (Reader.read g source).issues, ∃ ops i, Reader.Reports g source issue i ∧
        Performed source g.dialect.maxDepth ops i ∧
        Counted source g.dialect.maxDepth ops i ∧ issue.line = i.line := by
  refine ⟨fun maxDepth ops i hops => hops.counted, fun g issue hissue => ?_⟩
  obtain ⟨i, hreports⟩ := Reader.exists_reports hissue
  obtain ⟨ops, hops⟩ := Reader.performed_of_reports hreports
  exact ⟨ops, i, hreports, hops, hops.counted, Reader.line_of_reports hreports⟩

/-- A line end that was looked at is counted with the first character of a replacement text, and
the issues in the text name the line after their own. -/
theorem line_overtaken :
    ((ofSource (.ofText "\n") 1).performAll [.peek, .push "e" "x", .read]).2.line = 2 ∧
      (ledger (.ofText "\n") 1 [.peek, .push "e" "x", .read]).taken = [] ∧
      collect Reader.undefinedTag (.ofText "&e\n") =
        ([.finished], [⟨.undefinedStartTag (.fold "zz"), 2⟩], .ok ()) := by
  have hrun : Reader.read Reader.undefinedTag (.ofText "&e\n") =
      ⟨[.note "expanding entity &e;", .checkpoint,
        .report ⟨.undefinedStartTag (.fold "zz"), 2⟩, .checkpoint, .deliver .finished],
        .finished⟩ := by
    apply Reader.run_of_runWithin (n := 20)
    decide +kernel
  refine ⟨rfl, rfl, ?_⟩
  rw [collect_eq, hrun]
  rfl

end Markup
