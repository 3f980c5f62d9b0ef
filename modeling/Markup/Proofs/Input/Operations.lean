import Markup.Proofs.Input.OpenEntities

/-!
# An input is a list of characters

To its user an input is the list of its characters (`Input.content`): the one put back, the unread
text of the expansions from the innermost outwards, and the characters of the source. Each operation
edits this list as its answer says (`Edits`), wherever the characters are kept, and an operation
that fails or is refused loses nothing (`Refines`). So a run of operations of any length answers as
a plain list would (`refines_performAll`).
-/

namespace Markup

/-- The characters of a source, past all reads that fail. -/
def Source.characters (source : Source) : List Char :=
  source.filterMap Except.toOption

@[simp] theorem Source.characters_ok (c : Char) (source : Source) :
    Source.characters (.ok c :: source) = c :: source.characters := rfl

@[simp] theorem Source.characters_error (failure : ReadFailure) (source : Source) :
    Source.characters (.error failure :: source) = source.characters := rfl

@[simp] theorem Source.characters_append (source source' : Source) :
    Source.characters (source ++ source') = source.characters ++ source'.characters :=
  List.filterMap_append

@[simp] theorem Source.characters_map_ok (cs : List Char) :
    Source.characters (cs.map .ok) = cs := by
  induction cs with
  | nil => rfl
  | cons c cs ih => rw [List.map_cons, characters_ok, ih]

namespace Input

/-! ## Operations -/

/-- What can be done to an input. -/
inductive Operation where
  /-- The next character is read. -/
  | read
  /-- The next character is looked at. -/
  | peek
  /-- A character is put back. -/
  | unread (c : Char)
  /-- An entity of this name is expanded to this text. -/
  | push (name text : String)
  /-- Finished expansions are kept, or no longer kept. -/
  | hold (holding : Bool)

/-- What an operation answers. -/
inductive Answer where
  /-- The next character, or the end of the input. -/
  | next (c? : Option Char)
  /-- The source failed. -/
  | failed (failure : ReadFailure)
  /-- The entity is not expanded. -/
  | refused (refusal : Refusal)
  /-- Nothing but that it was done. -/
  | done

/-- The answer of a read or a look. -/
def Answer.ofNext : Except ReadFailure (Option Char) → Answer
  | .ok c? => .next c?
  | .error failure => .failed failure

/-- Performs an operation. -/
def perform (i : Input) : Operation → Answer × Input
  | .read => (.ofNext i.read.1, i.read.2)
  | .peek => (.ofNext i.peek.1, i.peek.2)
  | .unread c => (.done, i.unread c)
  | .push name text =>
    match i.pushEntity name text with
    | .ok j => (.done, j)
    | .error refusal => (.refused refusal, i)
  | .hold holding => (.done, i.hold holding)

/-- Performs operations one after another, and gives them with their answers. -/
def performAll (i : Input) : List Operation → List (Operation × Answer) × Input
  | [] => ([], i)
  | op :: ops =>
    let (answer, j) := i.perform op
    let (answers, k) := j.performAll ops
    ((op, answer) :: answers, k)

/-! ## Characters -/

/-- The characters to come: the one put back, the unread text of the expansions, innermost first,
and the rest of the source. -/
def content (i : Input) : List Char :=
  i.pushback.toList ++ expansionsText i.expansions ++ i.source.characters

/-- What an operation does to a list of characters when it answers this. -/
inductive Edits : Operation → Answer → List Char → List Char → Prop
  /-- A read removes the head of the list. -/
  | read (c : Char) (cs : List Char) : Edits .read (.next (some c)) (c :: cs) cs
  /-- A read of the empty list finds the end. -/
  | readEnd : Edits .read (.next none) [] []
  /-- A look finds the head of the list, if there is one. -/
  | peek (cs : List Char) : Edits .peek (.next cs.head?) cs cs
  /-- A character that is put back comes in front. -/
  | unread (c : Char) (cs : List Char) : Edits (.unread c) .done cs (c :: cs)
  /-- A replacement text comes in front. -/
  | push (name text : String) (cs : List Char) :
      Edits (.push name text) .done cs (text.toList ++ cs)
  /-- A refusal changes nothing. -/
  | refused (name text : String) (refusal : Refusal) (cs : List Char) :
      Edits (.push name text) (.refused refusal) cs cs
  /-- Keeping expansions changes nothing. -/
  | hold (holding : Bool) (cs : List Char) : Edits (.hold holding) .done cs cs
  /-- A read that fails changes nothing. -/
  | readFailed (failure : ReadFailure) (cs : List Char) : Edits .read (.failed failure) cs cs
  /-- A look that fails changes nothing. -/
  | peekFailed (failure : ReadFailure) (cs : List Char) : Edits .peek (.failed failure) cs cs

/-- What operations with these answers do to a list of characters. -/
inductive EditsAll : List (Operation × Answer) → List Char → List Char → Prop
  /-- Nothing is done. -/
  | nil (cs : List Char) : EditsAll [] cs cs
  /-- One operation is performed before the others. -/
  | cons {op : Operation} {answer : Answer} {rest : List (Operation × Answer)}
      {cs ds es : List Char} :
      Edits op answer cs ds → EditsAll rest ds es → EditsAll ((op, answer) :: rest) cs es

/-- An operation on an input is the operation on the list of its characters. -/
structure Refines (i : Input) (op : Operation) : Prop where
  /-- The characters are edited as the answer says. -/
  edits : Edits op (i.perform op).1 i.content (i.perform op).2.content
  /-- A refusal has a reason, and depth and line stay what they were. -/
  refused : ∀ refusal, (i.perform op).1 = .refused refusal →
    (∃ name text, op = .push name text ∧ (name ∈ i.openNames ∨ i.maxDepth ≤ i.depth)) ∧
      (i.perform op).2.depth = i.depth ∧ (i.perform op).2.line = i.line
  /-- Where an operation fails the source does, it fails once, and the line stays what it was. -/
  failed : ∀ failure, (i.perform op).1 = .failed failure →
    i.upcoming = .error failure :: (i.perform op).2.upcoming ∧ (i.perform op).2.line = i.line

/-- The characters to come are those of the reads to come. -/
theorem content_eq (i : Input) : i.content = i.upcoming.characters := by
  unfold content upcoming
  rw [Source.characters_append, Source.characters_append, Source.characters_map_ok,
    Source.characters_map_ok]

/-- The content of a new input is that of its source. -/
theorem content_ofSource (source : Source) (maxDepth : Nat) :
    (ofSource source maxDepth).content = source.characters := by
  rw [content_eq, upcoming_ofSource]

/-! ## Reading -/

/-- Counting a line takes no character. -/
theorem upcoming_countLine (i : Input) : i.countLine.upcoming = i.upcoming := by
  unfold countLine
  split <;> rfl

/-- Taking a character off the input counts no line. -/
theorem line_fetch (i : Input) : i.fetch.2.line = i.line := by
  unfold fetch
  split
  · rfl
  · split
    · rfl
    · dsimp only
      split <;> rfl

/-- Putting a character back counts no line. -/
theorem line_unread (i : Input) (c : Char) : (i.unread c).line = i.line := by
  unfold unread
  split <;> rfl

/-- A look counts no line. -/
theorem line_peek (i : Input) : i.peek.2.line = i.line := by
  have hline := i.line_fetch
  unfold peek
  split
  · rename_i hfetch
    rw [hfetch] at hline
    exact (line_unread _ _).trans hline
  · exact hline

/-- Reading gives the head of what is upcoming and leaves the rest. -/
theorem read_spec (i : Input) :
    match i.read with
    | (.ok none, j) => i.upcoming = [] ∧ j.upcoming = []
    | (.ok (some c), j) => i.upcoming = .ok c :: j.upcoming
    | (.error failure, j) => i.upcoming = .error failure :: j.upcoming ∧ j.line = i.line := by
  have hspec := i.peek_spec
  rcases hpeek : i.peek with ⟨r, j⟩
  rw [hpeek] at hspec
  rcases hfetch : i.fetch with ⟨r', k⟩
  have hline := i.line_fetch
  rw [hfetch] at hline
  cases r' with
  | error failure =>
    -- nothing was taken, so a look leaves the same input as a read
    simp only [peek, read, hfetch] at hpeek ⊢
    cases hpeek
    exact ⟨hspec, hline⟩
  | ok c? =>
    cases c? with
    | none =>
      simp only [peek, read, hfetch] at hpeek ⊢
      cases hpeek
      exact ⟨hspec.1, (upcoming_countLine _).trans hspec.2⟩
    | some c =>
      have hread : i.read = (.ok (some c), (k.unread c).consume) := by
        apply read_of_peek
        simp only [peek, hfetch]
      simp only [peek, hfetch] at hpeek
      cases hpeek
      rw [hread]
      exact hspec.1

/-! ## Putting back -/

/-- A character that is put back is the next one. -/
theorem content_unread (i : Input) (c : Char) : (i.unread c).content = c :: i.content := by
  unfold unread
  cases hp : i.pushback with
  | none => simp [content, hp]
  | some previous => simp [content, hp, expansionsText]

/-- The replacement text of an entity comes before all other characters. -/
theorem content_pushEntity {i j : Input} {name text : String}
    (h : i.pushEntity name text = .ok j) : j.content = text.toList ++ i.content := by
  rw [content_eq, content_eq, upcoming_pushEntity h, Source.characters_append,
    Source.characters_map_ok]

/-! ## Operations on the list of characters -/

/-- A read takes the first character of the content. -/
theorem refines_read (i : Input) : i.Refines .read := by
  have hspec := i.read_spec
  rcases hread : i.read with ⟨r, j⟩
  have hperform : i.perform .read = (.ofNext r, j) := by
    simp only [perform, hread]
  rw [hread] at hspec
  cases r with
  | error failure =>
    refine ⟨?_, fun refusal h => ?_, fun failure' h => ?_⟩
    · rw [hperform, content_eq, content_eq, hspec.1]
      exact .readFailed _ _
    · rw [hperform] at h
      cases h
    · rw [hperform] at h ⊢
      cases h
      exact hspec
  | ok c? =>
    refine ⟨?_, fun refusal h => ?_, fun failure h => ?_⟩
    · rw [hperform, content_eq, content_eq]
      cases c? with
      | none =>
        rw [hspec.1, hspec.2]
        exact .readEnd
      | some c =>
        dsimp only at hspec
        rw [hspec]
        exact .read _ _
    · rw [hperform] at h
      cases h
    · rw [hperform] at h
      cases h

/-- A look leaves the content. -/
theorem refines_peek (i : Input) : i.Refines .peek := by
  have hspec := i.peek_spec
  have hline := i.line_peek
  rcases hpeek : i.peek with ⟨r, j⟩
  have hperform : i.perform .peek = (.ofNext r, j) := by
    simp only [perform, hpeek]
  rw [hpeek] at hspec hline
  cases r with
  | error failure =>
    refine ⟨?_, fun refusal h => ?_, fun failure' h => ?_⟩
    · dsimp only at hspec
      rw [hperform, content_eq, content_eq, hspec]
      exact .peekFailed _ _
    · rw [hperform] at h
      cases h
    · rw [hperform] at h ⊢
      cases h
      exact ⟨hspec, hline⟩
  | ok c? =>
    obtain ⟨hkept, hnext⟩ := peek_ok hpeek
    refine ⟨?_, fun refusal h => ?_, fun failure h => ?_⟩
    · have hhead : i.upcoming.characters.head? = c? := by
        cases c? with
        | none => rw [hspec.1]; rfl
        | some c => rw [hspec.1]; rfl
      rw [hperform, content_eq, content_eq, hkept, ← hhead]
      exact .peek _
    · rw [hperform] at h
      cases h
    · rw [hperform] at h
      cases h

/-- An expansion puts its text before the content, or is refused. -/
theorem refines_push (i : Input) (name text : String) : i.Refines (.push name text) := by
  rcases hpush : i.pushEntity name text with refusal | j
  · have hperform : i.perform (.push name text) = (.refused refusal, i) := by
      simp only [perform, hpush]
    refine ⟨?_, fun refusal' h => ?_, fun failure h => ?_⟩
    · rw [hperform]
      exact .refused _ _ _ _
    · rw [hperform]
      exact ⟨⟨name, text, rfl, refused_of_pushEntity hpush⟩, rfl, rfl⟩
    · rw [hperform] at h
      cases h
  · have hperform : i.perform (.push name text) = (.done, j) := by
      simp only [perform, hpush]
    refine ⟨?_, fun refusal h => ?_, fun failure h => ?_⟩
    · rw [hperform, content_pushEntity hpush]
      exact .push _ _ _
    · rw [hperform] at h
      cases h
    · rw [hperform] at h
      cases h

/-- Every operation on an input is the operation on the list of its characters. -/
theorem refines (i : Input) (op : Operation) : i.Refines op := by
  cases op with
  | read => exact i.refines_read
  | peek => exact i.refines_peek
  | unread c =>
    refine ⟨?_, fun refusal h => (by cases h), fun failure h => (by cases h)⟩
    show Edits (.unread c) .done i.content (i.unread c).content
    rw [content_unread]
    exact .unread _ _
  | push name text => exact i.refines_push name text
  | hold holding =>
    exact ⟨.hold holding i.content, fun refusal h => (by cases h), fun failure h => (by cases h)⟩

/-- A run of operations edits the characters as its answers say. -/
theorem editsAll_performAll (i : Input) (ops : List Operation) :
    EditsAll (i.performAll ops).1 i.content (i.performAll ops).2.content := by
  induction ops generalizing i with
  | nil => exact .nil _
  | cons op ops ih => exact .cons (i.refines op).edits (ih (i.perform op).2)

/-- Whatever is done to the input over a source, it answers as the list of its characters would,
and after every run of operations every operation does so again. -/
theorem refines_performAll (source : Source) (maxDepth : Nat) (ops : List Operation) :
    EditsAll ((ofSource source maxDepth).performAll ops).1 source.characters
        ((ofSource source maxDepth).performAll ops).2.content ∧
      ∀ op, ((ofSource source maxDepth).performAll ops).2.Refines op := by
  have hedits := editsAll_performAll (ofSource source maxDepth) ops
  rw [content_ofSource] at hedits
  exact ⟨hedits, refines _⟩

end Input

end Markup
