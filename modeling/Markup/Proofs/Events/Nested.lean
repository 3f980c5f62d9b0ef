import Markup.Proofs.Events.Operations

/-!
# Nested events

Events are nested when each end tag belongs to the start tag before it that has not ended yet, and
carries the same declaration. What regular events leave open is closed by the end tags of the open
elements from the inside (`Regular.closes`), so the events of a whole document are nested
(`isDocument_read`), and so is what regular events can be completed to
(`Regular.exists_nested`). End tags without a declared element take no part in this.
-/

namespace Markup

/-- Each end tag belongs to a start tag with the same declaration. -/
inductive Nested : List Event → Prop
  /-- No event. -/
  | nil : Nested []
  /-- Text and what follows it. -/
  | text {text : String} {nonBreaking : Bool} {rest : List Event} :
      Nested rest → Nested (.characterData text nonBreaking :: rest)
  /-- An element with what stands inside it and what follows it. -/
  | element {e : Element} {attributes : Attributes} {inside rest : List Event} :
      Nested inside → Nested rest →
      Nested (.startTag e attributes :: (inside ++ .endTag e :: rest))

/-- Whether an event is the end tag of an element that is not declared. -/
def Event.isUndeclaredEnd (d : Dtd) : Event → Bool
  | .endTag e => !d.declares e.name
  | _ => false

/-- The events without the end tags of elements that are not declared. -/
def declaredEvents (d : Dtd) (events : List Event) : List Event :=
  events.filter fun event => !event.isUndeclaredEnd d

/-- Events that close the elements of a stack, the innermost one first, and are nested before,
between and after the end tags that do. -/
def Closes : List Element → List Event → Prop
  | [], events => Nested events
  | e :: stack, events =>
    ∃ inside rest, events = inside ++ .endTag e :: rest ∧ Nested inside ∧ Closes stack rest

namespace Closes

variable {stack : List Element} {events inside rest : List Event} {e : Element}

/-- Text closes nothing. -/
theorem text {text : String} {nonBreaking : Bool} (h : Closes stack events) :
    Closes stack (.characterData text nonBreaking :: events) := by
  cases stack with
  | nil => exact Nested.text h
  | cons e stack =>
    obtain ⟨inside, rest, rfl, hinside, hrest⟩ := h
    exact ⟨_ :: inside, rest, rfl, hinside.text, hrest⟩

/-- A text closes nothing, even if it is empty. -/
theorem textEvents {text : String} (h : Closes stack events) :
    Closes stack (Markup.textEvents text ++ events) := by
  unfold Markup.textEvents
  split
  · exact h
  · exact h.text

/-- A whole element may come first. -/
theorem element {attributes : Attributes} (hinside : Nested inside) (h : Closes stack rest) :
    Closes stack (.startTag e attributes :: (inside ++ .endTag e :: rest)) := by
  cases stack with
  | nil => exact Nested.element hinside h
  | cons x stack =>
    obtain ⟨between, rest, rfl, hbetween, hrest⟩ := h
    refine ⟨.startTag e attributes :: (inside ++ .endTag e :: between), rest, ?_,
      .element hinside hbetween, hrest⟩
    simp

/-- The end tags of all elements close them. -/
theorem endTags (stack : List Element) : Closes stack (stack.map .endTag) := by
  induction stack with
  | nil => exact .nil
  | cons e stack ih => exact ⟨[], stack.map .endTag, rfl, .nil, ih⟩

end Closes

section

variable {d : Dtd} {events more : List Event} {e : Element} {text : String} {nonBreaking : Bool}
  {attributes : Attributes}

/-- The declared events of two parts. -/
@[simp] theorem declaredEvents_append :
    declaredEvents d (events ++ more) = declaredEvents d events ++ declaredEvents d more :=
  List.filter_append ..

@[simp] theorem declaredEvents_text :
    declaredEvents d (.characterData text nonBreaking :: events) =
      .characterData text nonBreaking :: declaredEvents d events := rfl

/-- Texts stay among the declared events. -/
@[simp] theorem declaredEvents_textEvents :
    declaredEvents d (textEvents text) = textEvents text := by
  unfold textEvents
  split <;> rfl

/-- Start tags stay among the declared events. -/
@[simp] theorem declaredEvents_startTag :
    declaredEvents d (.startTag e attributes :: events) =
      .startTag e attributes :: declaredEvents d events := rfl

/-- An end tag of a declared element stays. -/
theorem declaredEvents_endTag (h : d.declares e.name = true) :
    declaredEvents d (.endTag e :: events) = .endTag e :: declaredEvents d events := by
  simp [declaredEvents, Event.isUndeclaredEnd, h]

/-- An end tag of no declared element is left out. -/
theorem declaredEvents_undeclared (h : d.declares e.name = false) :
    declaredEvents d (.endTag e :: events) = declaredEvents d events := by
  simp [declaredEvents, Event.isUndeclaredEnd, h]

/-- A part from the start stays one. -/
theorem declaredEvents_mono (h : events <+: more) :
    declaredEvents d events <+: declaredEvents d more := by
  obtain ⟨rest, rfl⟩ := h
  exact ⟨declaredEvents d rest, declaredEvents_append.symm⟩

end

variable {g : Grammar} {d d' : Document} {events more : List Event} {causes : List IssueCause}

/-- A passage closes what was open if what follows closes what it leaves open. -/
theorem Passage.closes (h : Passage g d events causes d') (hd : d.elements.Sound g.dtd)
    (hmore : Closes d'.elements.stack (declaredEvents g.dtd more)) :
    Closes d.elements.stack (declaredEvents g.dtd (events ++ more)) := by
  -- the innermost element is the last one to have begun
  have hcurrent {e : Element} (he : d.elements.current? = some e) :
      d.elements.stack = e :: d.elements.pop.stack ∧ g.dtd.declares e.name = true := by
    exact ⟨OpenElements.stack_of_current he, (hd.spells_of_current he).declares⟩
  cases h with
  | text => exact hmore.text
  | space => exact hmore.text
  | opened =>
    -- what follows ends the new element first, which makes it a whole one
    obtain ⟨inside, rest, hevents, hinside, hrest⟩ := hmore
    rw [List.singleton_append, declaredEvents_startTag, hevents]
    exact hrest.element hinside
  | empty hbegins =>
    rw [List.cons_append, List.singleton_append, declaredEvents_startTag,
      declaredEvents_endTag hbegins.spelt.declares]
    exact hmore.element .nil
  | closed he =>
    obtain ⟨hstack, hdeclared⟩ := hcurrent he
    rw [hstack, List.singleton_append, declaredEvents_endTag hdeclared]
    exact ⟨[], _, rfl, .nil, hmore⟩
  | @verbatim e text he =>
    obtain ⟨hstack, hdeclared⟩ := hcurrent he
    rw [hstack, List.append_assoc, declaredEvents_append, declaredEvents_textEvents,
      List.singleton_append, declaredEvents_endTag hdeclared]
    refine ⟨textEvents text, _, rfl, ?_, hmore⟩
    have htext : Closes [] (textEvents text ++ []) := Closes.textEvents Nested.nil
    rwa [List.append_nil] at htext
  | unknown _ hdeclared htoken =>
    rw [List.singleton_append, declaredEvents_undeclared (by rw [name_ofName htoken, hdeclared])]
    exact hmore

/-- What closes the elements that regular events leave open, closes those that were open before
them when it follows them. -/
theorem Regular.closes (h : Regular g d events causes d') (hd : d.elements.Sound g.dtd)
    (hmore : Closes d'.elements.stack (declaredEvents g.dtd more)) :
    Closes d.elements.stack (declaredEvents g.dtd (events ++ more)) := by
  induction h with
  | refl => exact hmore
  | step hpassage _ ih =>
    rw [List.append_assoc]
    exact hpassage.closes hd (ih (hpassage.sound hd) hmore)

/-- Regular events from outside all elements begin nested events. -/
theorem Regular.exists_nested (h : Regular g d events causes d') (hd : d.elements.Sound g.dtd)
    (hstack : d.elements.stack = []) :
    ∃ word, Nested word ∧ declaredEvents g.dtd events <+: word := by
  -- the end tags of what is still open complete the word
  have hends : declaredEvents g.dtd (d'.elements.stack.map .endTag) =
      d'.elements.stack.map .endTag := by
    refine List.filter_eq_self.2 fun event hevent => ?_
    obtain ⟨e, he, rfl⟩ := List.mem_map.1 hevent
    simp [Event.isUndeclaredEnd, ((h.sound hd).spelt e he).declares]
  have hrest : Closes d'.elements.stack
      (declaredEvents g.dtd (d'.elements.stack.map .endTag)) := by
    rw [hends]
    exact .endTags _
  have hcloses := h.closes hd hrest
  rw [hstack, declaredEvents_append] at hcloses
  exact ⟨_, hcloses, List.prefix_append _ _⟩

/-- Regular events do not end the document. -/
theorem Regular.finished_not_mem (h : Regular g d events causes d') : .finished ∉ events := by
  induction h with
  | refl => exact List.not_mem_nil
  | step hpassage _ ih =>
    rw [List.mem_append, not_or]
    refine ⟨?_, ih⟩
    cases hpassage with
    | verbatim =>
      unfold textEvents
      split <;> simp
    | _ => simp

/-- A passage has an end tag without a declared element only where the dialect says so. -/
theorem Passage.synthesize_of_mem (h : Passage g d events causes d') (hd : d.elements.Sound g.dtd)
    {event : Event} (hevent : event ∈ events) (hundeclared : event.isUndeclaredEnd g.dtd = true) :
    g.dialect.unknownEndTags = .synthesize := by
  -- texts and start tags are no end tags, and open elements are declared
  have hdeclared {e : Element} (he : g.dtd.Spells e) (hevent : event = .endTag e) : False := by
    rw [hevent, Event.isUndeclaredEnd, he.declares] at hundeclared
    cases hundeclared
  cases h with
  | text =>
    rw [List.mem_singleton.1 hevent] at hundeclared
    cases hundeclared
  | space =>
    rw [List.mem_singleton.1 hevent] at hundeclared
    cases hundeclared
  | opened =>
    rw [List.mem_singleton.1 hevent] at hundeclared
    cases hundeclared
  | empty hbegins =>
    rcases List.mem_cons.1 hevent with rfl | hevent
    · cases hundeclared
    · exact (hdeclared hbegins.spelt (List.mem_singleton.1 hevent)).elim
  | closed he => exact (hdeclared (hd.spells_of_current he) (List.mem_singleton.1 hevent)).elim
  | verbatim he =>
    rcases List.mem_append.1 hevent with hevent | hevent
    · unfold textEvents at hevent
      split at hevent
      · cases hevent
      · rw [List.mem_singleton.1 hevent] at hundeclared
        cases hundeclared
    · exact (hdeclared (hd.spells_of_current he) (List.mem_singleton.1 hevent)).elim
  | unknown hrule => exact hrule

/-- End tags without a declared element are made up only where the dialect says so. -/
theorem Regular.synthesize_of_mem (h : Regular g d events causes d')
    (hd : d.elements.Sound g.dtd) {event : Event} (hevent : event ∈ events)
    (hundeclared : event.isUndeclaredEnd g.dtd = true) :
    g.dialect.unknownEndTags = .synthesize := by
  induction h with
  | refl => cases hevent
  | step hpassage _ ih =>
    rcases List.mem_append.1 hevent with hevent | hevent
    · exact hpassage.synthesize_of_mem hd hevent hundeclared
    · exact ih (hpassage.sound hd) hevent

end Markup
