import Markup.Proofs.Reader.Parallel

/-!
# Reading depends on what has been read

A step is given the next character and sees nothing of the source beyond it
(`stepOn_withSource`). So a source that fails after some characters is read like one that goes on:
up to the failure the reader does the same (`run_truncates`), and a failure that ends a reading is
one of the source (`mem_source_of_failed`).
-/

namespace Markup

/-! ## Other reads left -/

namespace Input

/-- The input with other reads left of its source. -/
def withSource (i : Input) (source : Source) : Input :=
  { i with source }

variable (i : Input) (source : Source)

@[simp] theorem source_withSource : (i.withSource source).source = source := rfl

/-- Taking the character that was looked at asks nothing of the source. -/
@[simp] theorem consume_withSource :
    (i.withSource source).consume = i.consume.withSource source := by
  unfold consume countLine
  by_cases h : i.lineEndPending = true
  · simp [withSource, h]
  · simp [withSource, h]

/-- An entity is expanded, or refused, whatever is left of the source. -/
theorem pushEntity_withSource (name text : String) :
    (i.withSource source).pushEntity name text =
      (i.pushEntity name text).map (·.withSource source) := by
  unfold pushEntity
  show (if i.expansions.any _ = true then _ else if i.maxDepth ≤ i.depth then _ else _) = _
  split
  · rfl
  · split
    · rfl
    · rfl

end Input

namespace Reader

/-- The state with other reads left of its source. -/
def State.withSource (s : State) (source : Source) : State :=
  { s with input := s.input.withSource source }

/-- Where a step leads with other reads left of the source. -/
def Progress.withSource (source : Source) : Progress → Progress
  | .running s => .running (s.withSource source)
  | .stopped outcome => .stopped outcome

/-- A move with other reads left of the source. -/
def Move.withSource (m : Move) (source : Source) : Move :=
  (m.1, m.2.withSource source)

section

variable (g : Grammar) (s : State) (source : Source)

/-! ## Where something ends -/

/-- Going on after a reference asks nothing of the source. -/
theorem resume_withSource (site : Site) (text : String) :
    (s.withSource source).resume site text = (s.resume site text).withSource source := by
  cases site with
  | text place => rfl
  | value v => rfl

/-- The end of a numeric reference is handled whatever is left of the source. -/
theorem endNumeric_withSource (site : Site) (hexadecimal : Bool) (digits : List Char) :
    endNumeric (s.withSource source) site hexadecimal digits =
      (endNumeric s site hexadecimal digits).withSource source := by
  unfold endNumeric
  split
  · exact resume_withSource s source site _
  · rfl

/-- The end of a name of an entity is handled whatever is left of the source. -/
theorem endEntity_withSource (site : Site) (name : String) (terminated : Bool) :
    endEntity g (s.withSource source) site name terminated =
      (endEntity g s site name terminated).withSource source := by
  cases site with
  | value v => exact resume_withSource s source (.value v) (entityInValue g name terminated)
  | text place =>
    simp only [endEntity, endTextEntity]
    split
    · rfl
    · split
      · rfl
      · rename_i entity _
        have hpush := s.input.pushEntity_withSource source name entity.replacement
        rw [show (s.withSource source).input = s.input.withSource source from rfl, hpush]
        cases s.input.pushEntity name entity.replacement with
        | error refusal => rfl
        | ok input => rfl

/-- The end of an end tag is handled whatever is left of the source. -/
theorem endEndTag_withSource (name : Name) :
    endEndTag g (s.withSource source) name = (endEndTag g s name).withSource source := by
  unfold endEndTag
  split
  · rfl
  · split
    · rfl
    · rfl

/-- A name of an element is looked up whatever is left of the source. -/
theorem endStartTagName_withSource (name : Name) :
    endStartTagName g (s.withSource source) name =
      (endStartTagName g s name).withSource source := by
  unfold endStartTagName
  split
  · rfl
  · rfl

/-- An attribute is recorded whatever is left of the source. -/
theorem endAttribute_withSource (tag : Tag) (name : Name) (value : String) :
    endAttribute g (s.withSource source) tag name value =
      (endAttribute g s tag name value).withSource source := by
  unfold endAttribute
  split
  · rfl
  · rfl

/-- The end of a start tag is handled whatever is left of the source. -/
theorem endStartTag_withSource (tag : Tag) :
    endStartTag (s.withSource source) tag = (endStartTag s tag).withSource source := by
  unfold endStartTag
  split
  · rfl
  · rfl
  · rfl
  · rfl

/-! ## Steps -/

/-- A step is the same whatever comes after the character that it is given. -/
theorem stepOn_withSource (c? : Option Char) :
    stepOn g (s.withSource source) c? = (stepOn g s c?).withSource source := by
  obtain ⟨i, mode, d⟩ := s
  have htake (m : Mode) :
      State.take ⟨i.withSource source, m, d⟩ = ⟨i.consume.withSource source, m, d⟩ := by
    rw [State.take, Input.consume_withSource]
  simp only [State.withSource]
  cases mode with
  | reference site =>
    simp only [stepOn, stepReference, htake]
    repeat' split
    all_goals first | rfl | exact resume_withSource ⟨i, _, d⟩ source site _
  | digits site hexadecimal digits =>
    simp only [stepOn, stepDigits, htake]
    repeat' split
    all_goals first | rfl | exact endNumeric_withSource ⟨_, _, d⟩ source site hexadecimal digits
  | entityName site name =>
    simp only [stepOn, stepEntityName, htake]
    repeat' split
    all_goals first | rfl | exact endEntity_withSource g ⟨_, _, d⟩ source site name _
  | endTagRest name =>
    simp only [stepOn, stepTagRest, htake]
    repeat' split
    all_goals first | rfl | exact endEndTag_withSource g ⟨_, _, d⟩ source name
  | startTagName name =>
    simp only [stepOn, stepStartTagName, htake]
    repeat' split
    all_goals first | rfl | exact endStartTagName_withSource g ⟨_, _, d⟩ source (.fold name)
  | attributes tag =>
    simp only [stepOn, stepAttributes, htake]
    repeat' split
    all_goals first | rfl | exact endStartTag_withSource ⟨_, _, d⟩ source tag
  | attributeNameEnd tag name =>
    simp only [stepOn, stepAttributeNameEnd, htake]
    repeat' split
    all_goals first | rfl | exact endAttribute_withSource g ⟨_, _, d⟩ source tag name ""
  | value v =>
    simp only [stepOn, stepValue, stepQuotedValue, stepBareValue, htake]
    repeat' split
    all_goals first | rfl | exact endAttribute_withSource g ⟨_, _, d⟩ source v.tag v.name v.text
  | _ =>
    -- in all other modes a step only goes on, with operations on the document
    simp only [stepOn, stepText, stepTextReturn, stepNumericReference, stepMarkup, stepEndTag,
      stepEndTagName, stepTagRest, stepDeclaration, stepComment, stepSkipped, stepAttributeName,
      stepValueStart, stepValueReturn, stepRawMarkup, stepRawEndTag, htake]
    repeat' split
    all_goals rfl

/-- A step takes nothing off the source but the character that it is given. -/
theorem source_of_stepOn {t : State} {actions : List Action} {c? : Option Char}
    (h : stepOn g s c? = (actions, .running t)) : t.input.source = s.input.source := by
  have hsame := stepOn_withSource g s s.input.source c?
  rw [show s.withSource s.input.source = s from rfl, h] at hsame
  simp only [Move.withSource, Progress.withSource, Prod.mk.injEq, true_and,
    Progress.running.injEq] at hsame
  rw [hsame]
  rfl

end

end Reader

/-! ## Sources that fail -/

/-- A source gives the same characters as another one, all of them or up to a failure. -/
inductive Source.Truncates : Source → Source → Prop
  /-- All reads are the same. -/
  | same (source : Source) : Truncates source source
  /-- The next read fails. -/
  | failed (failure : ReadFailure) (rest source : Source) :
      Truncates (.error failure :: rest) source
  /-- The next read gives the same character. -/
  | next {source source' : Source} (c : Char) :
      Truncates source source' → Truncates (.ok c :: source) (.ok c :: source')

/-- A failing read put anywhere into a source truncates it. -/
theorem Source.truncates_failingAt (text : List Char) (n : Nat) (failure : ReadFailure) :
    Source.Truncates (Source.failingAt (text.map .ok) n failure) (text.map .ok) := by
  unfold failingAt
  split
  · rename_i hn
    induction text generalizing n with
    | nil =>
      rw [List.map_nil, List.take_nil]
      exact .failed failure _ _
    | cons c text ih =>
      cases n with
      | zero => exact .failed failure _ _
      | succ n => exact .next c (ih n (by simpa using hn))
  · exact .same _

/-- One trace is another one cut short, and all of it if it gets to the end of its document. -/
structure Trace.Truncates (t t' : Trace) : Prop where
  /-- The actions come in the same order. -/
  actions : t.actions <+: t'.actions
  /-- Nothing is missing at the end of the document. -/
  whole : t.outcome = .finished → t = t'

/-- A look at a truncated source finds the same or fails. -/
theorem Input.peek_truncated {i : Input} {source : Source} (h : source.Truncates i.source) :
    (∃ failure j, (i.withSource source).peek = (.error failure, j)) ∨
      ∃ rest, (i.withSource source).peek = (i.peek.1, i.peek.2.withSource rest) ∧
        rest.Truncates i.peek.2.source := by
  cases hp : i.pushback with
  | some c =>
    rw [peek_of_pushback (i := i.withSource source) hp, peek_of_pushback hp]
    exact .inr ⟨source, rfl, h⟩
  | none =>
    rw [peek_of_no_pushback (i := i.withSource source) hp, peek_of_no_pushback hp]
    rw [show (i.withSource source).liveExpansions = i.liveExpansions from rfl, source_withSource]
    cases takeFirst i.liveExpansions with
    | some p => exact .inr ⟨source, rfl, h⟩
    | none =>
      generalize hsource : i.source = source' at h
      cases h with
      | same =>
        refine .inr ?_
        cases source with
        | nil => exact ⟨_, rfl, .same _⟩
        | cons item rest =>
          cases item with
          | error failure => exact ⟨_, rfl, .same _⟩
          | ok c => exact ⟨_, rfl, .same _⟩
      | failed failure rest => exact .inl ⟨failure, _, rfl⟩
      | next c h => exact .inr ⟨_, rfl, h⟩

/-- A look takes nothing but the next read off the source, and fails only where the source does. -/
theorem Input.peek_source (i : Input) :
    i.peek.2.source <:+ i.source ∧
      ∀ failure, i.peek.1 = .error failure → .error failure ∈ i.source := by
  cases hp : i.pushback with
  | some c =>
    rw [peek_of_pushback hp]
    exact ⟨List.suffix_refl _, fun failure h => by cases h⟩
  | none =>
    rw [peek_of_no_pushback hp]
    cases takeFirst i.liveExpansions with
    | some p => exact ⟨List.suffix_refl _, fun failure h => by cases h⟩
    | none =>
      cases i.source with
      | nil => exact ⟨List.suffix_refl _, fun failure h => by cases h⟩
      | cons item source =>
        cases item with
        | ok c => exact ⟨List.suffix_cons _ _, fun failure h => by cases h⟩
        | error failure =>
          refine ⟨List.suffix_cons _ _, fun failure' h => ?_⟩
          cases h
          exact List.mem_cons_self

/-- A trace cut short is still one after the same actions before both. -/
theorem Trace.Truncates.prepend {t t' : Trace} (h : t.Truncates t') (actions : List Action) :
    (t.prepend actions).Truncates (t'.prepend actions) :=
  ⟨(List.prefix_append_right_inj _).2 h.actions, fun hfinished => by rw [h.whole hfinished]⟩

namespace Reader

variable {g : Grammar} {s t : State} {source : Source} {actions : List Action}

/-! ## One step -/

/-- A step on a truncated source is the same step, or the source fails. -/
theorem step_truncated (h : source.Truncates s.input.source) :
    (∃ failure, step g (s.withSource source) = ([], .stopped (.failed failure))) ∨
      ∃ rest, step g (s.withSource source) = (step g s).withSource rest ∧
        ∀ actions t, step g s = (actions, .running t) → rest.Truncates t.input.source := by
  have hlook := Input.peek_truncated (i := s.input.hold s.mode.isHeld) h
  unfold step
  rw [show (s.withSource source).input.hold (s.withSource source).mode.isHeld =
    (s.input.hold s.mode.isHeld).withSource source from rfl]
  rcases hlook with ⟨failure, j, hpeek⟩ | ⟨rest, hpeek, hrest⟩
  · rw [hpeek]
    exact .inl ⟨failure, rfl⟩
  · rw [hpeek]
    rcases hlooked : (s.input.hold s.mode.isHeld).peek with ⟨result, j⟩
    rw [hlooked] at hrest
    cases result with
    | error failure => exact .inl ⟨failure, rfl⟩
    | ok c? =>
      refine .inr
        ⟨rest, stepOn_withSource g { s with input := j } rest c?, fun actions t hstep => ?_⟩
      rw [source_of_stepOn g { s with input := j } hstep]
      exact hrest

/-- A step leaves a part of the source. -/
theorem source_of_step (h : step g s = (actions, .running t)) :
    t.input.source <:+ s.input.source := by
  obtain ⟨c?, hpeek, hstep⟩ := exists_peek_of_running h
  have hlook := ((s.input.hold s.mode.isHeld).peek_source).1
  rw [hpeek] at hlook
  rw [source_of_stepOn g ⟨s.looked, s.mode, s.document⟩ hstep]
  exact hlook

/-- A step fails only where the source does. -/
theorem error_mem_of_step {failure : ReadFailure}
    (h : step g s = (actions, .stopped (.failed failure))) : .error failure ∈ s.input.source := by
  have hlook := ((s.input.hold s.mode.isHeld).peek_source).2
  unfold step at h
  rcases hpeek : (s.input.hold s.mode.isHeld).peek with ⟨result, j⟩
  rw [hpeek] at h hlook
  cases result with
  | error failure' =>
    cases h
    exact hlook failure rfl
  | ok c? =>
    -- a step that is given a character, or the end of the input, does not fail
    have hparallel := parallel_stepOn g j j s.mode s.document c?
    rw [show stepOn g ⟨j, s.mode, s.document⟩ c? = (actions, .stopped (.failed failure)) from h]
      at hparallel
    generalize hmove : ((actions, .stopped (.failed failure)) : Move) = move at hparallel
    cases hparallel with
    | stops => cases hmove
    | goes => cases hmove
    | expands =>
      unfold State.expand at hmove
      split at hmove
      · cases hmove
      · cases hmove

/-! ## Whole readings -/

/-- A truncated source is read up to its failure as the whole source is. -/
theorem run_truncates (h : source.Truncates s.input.source) :
    (run g (s.withSource source)).Truncates (run g s) := by
  generalize hn : load g.dtd.longestReplacement s.input s.mode = n
  induction n using Nat.strongRecOn generalizing s source with
  | _ n ih =>
    subst hn
    rcases step_truncated (g := g) h with ⟨failure, hfailed⟩ | ⟨rest, hsame, hrest⟩
    · rw [run_of_stopped hfailed]
      exact ⟨List.nil_prefix, fun hfinished => by cases hfinished⟩
    · rcases hstep : step g s with ⟨actions, progress⟩
      rw [hstep] at hsame
      cases progress with
      | stopped outcome =>
        rw [run_of_stopped hstep, run_of_stopped hsame]
        exact ⟨List.prefix_refl _, fun _ => rfl⟩
      | running t =>
        have htail := ih _ (load_step_lt (congrArg Prod.snd hstep)) (hrest actions t hstep) rfl
        rw [(Reaches.single hstep).run_eq, (Reaches.single hsame).run_eq]
        exact htail.prepend actions

/-- A truncated document is read up to its failure as the whole document is. -/
theorem read_truncates {source' : Source} (h : source.Truncates source') :
    (read g source).Truncates (read g source') :=
  run_truncates (s := .start g source') h

/-- A failure that ends a reading is one of the source. -/
theorem mem_source_of_failed {failure : ReadFailure}
    (h : (read g source).outcome = .failed failure) : .error failure ∈ source := by
  obtain ⟨actions, t, last, outcome, hreach, hstop, hrun⟩ := exists_stop g (.start g source)
  have hsource : t.input.source <:+ source := by
    refine hreach.invariant (P := fun t => t.input.source <:+ source) ?_ (List.suffix_refl _)
    intro s t actions hs hstep
    exact (source_of_step hstep).trans hs
  unfold read at h
  rw [hrun] at h
  simp only at h
  subst h
  exact hsource.subset (error_mem_of_step hstop)

/-- A text is read to its end. -/
theorem outcome_ofText (g : Grammar) (text : String) :
    (read g (.ofText text)).outcome = .finished := by
  cases houtcome : (read g (.ofText text)).outcome with
  | finished => rfl
  | failed failure =>
    obtain ⟨c, -, hc⟩ := List.mem_map.1 (mem_source_of_failed houtcome)
    cases hc

end Reader

end Markup
