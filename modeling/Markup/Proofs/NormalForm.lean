import Markup.Proofs.Reader.Delivery
import Markup.Proofs.Reader.Sources
import Markup.Proofs.Session.Interruption
import Markup.Proofs.Session.Passive

/-!
# Events are in normal form

The events of a document that is read to its end are regular, so they can be taken apart before any
event that is not an end tag (`Regular.split`): a document stands there, whose open elements are
those of the tags before it, and what follows is regular again (`Document.Stands`). What comes right
after the event is a matter of the next passage, because a passage looks at the pending text and at
the innermost element of the document from which it leads. From this each part of the normal form is
read off (`normalForm_of_ends`).
-/

namespace Markup

/-- What may stand between the tags of an element with raw content. -/
structure RawContent (e : Element) (texts : List Event) : Prop where
  /-- There is nothing but text. -/
  onlyText : ∀ x ∈ texts, x.kind = .characterData
  /-- Text that is written as it is is one event or none. -/
  single : e.content = .cdata → texts = [] ∨ ∃ text, texts = [.characterData text false]

/-- What holds of the events of every document: texts are not empty and stand alone, and they and
the tags around them respect what the open elements may contain. -/
structure NormalForm (g : Grammar) (events : List Event) : Prop where
  /-- Text is not empty, and the space that does not break is a single space. -/
  texts : ∀ text nonBreaking, .characterData text nonBreaking ∈ events →
    text ≠ "" ∧ (nonBreaking = true → text = " ")
  /-- Two texts do not follow each other. -/
  separate : ∀ before text text' after,
    events ≠ before ++ .characterData text false :: .characterData text' false :: after
  /-- Text outside all elements is not blank. -/
  outside : ∀ before text after, events = before ++ .characterData text false :: after →
    replay g.dtd before = [] → Text.allBlank text = false
  /-- Inside an element that holds no text there is none, except before the end tag of an element
  that is not declared, where the dialect has those made up. -/
  elementOnly : ∀ before text nonBreaking after e,
    events = before ++ .characterData text nonBreaking :: after →
    (replay g.dtd before).getLast? = some e → e.content = .model ∨ e.content = .empty →
    nonBreaking = false ∧ g.dialect.unknownEndTags = .synthesize ∧
      ∃ x rest, after = .endTag x :: rest ∧ g.dtd.declares x.name = false
  /-- An empty element ends where it begins. -/
  empty : ∀ before e attributes after, events = before ++ .startTag e attributes :: after →
    e.content = .empty → ∃ rest, after = .endTag e :: rest
  /-- Where markup is not recognised there is nothing but text up to the end tag. -/
  raw : ∀ before e attributes after, events = before ++ .startTag e attributes :: after →
    e.content.isRaw = true →
    ∃ texts rest, after = texts ++ .endTag e :: rest ∧ RawContent e texts

variable {g : Grammar} {d d' d'' : Document} {e : Element} {attributes : Attributes}
  {event : Event} {events before after tail : List Event} {causes : List IssueCause}

/-! ## Taking regular events apart -/

/-- Only end tags follow the first event of a passage. -/
theorem Passage.exists_cons (h : Passage g d events causes d') :
    ∃ first rest, events = first :: rest ∧ ∀ x ∈ rest, ∃ e, x = .endTag e := by
  cases h with
  | @empty e attributes =>
    exact ⟨_, _, rfl, fun x hx => ⟨e, List.mem_singleton.1 hx⟩⟩
  | @verbatim e text =>
    unfold textEvents
    split
    · exact ⟨_, [], rfl, List.forall_mem_nil _⟩
    · exact ⟨_, _, rfl, fun x hx => ⟨e, List.mem_singleton.1 hx⟩⟩
  | _ => exact ⟨_, [], rfl, List.forall_mem_nil _⟩

/-- The first of regular events belongs to a passage. -/
theorem Regular.exists_passage (h : Regular g d (event :: after) causes d'') :
    ∃ tail rest d' first others, after = tail ++ rest ∧ Passage g d (event :: tail) first d' ∧
      Regular g d' rest others d'' := by
  generalize hword : event :: after = word at h
  cases h with
  | refl => cases hword
  | step hpassage hmore =>
    obtain ⟨first, tail, rfl, -⟩ := hpassage.exists_cons
    obtain ⟨rfl, rfl⟩ := List.cons_eq_cons.1 hword
    exact ⟨tail, _, _, _, _, rfl, hpassage, hmore⟩

/-- Regular events come apart before every event that is not an end tag. -/
theorem Regular.split (h : Regular g d (before ++ event :: after) causes d'')
    (hend : ∀ e, event ≠ .endTag e) :
    ∃ d' first others, Regular g d before first d' ∧ Regular g d' (event :: after) others d'' := by
  generalize hword : before ++ event :: after = word at h
  induction h generalizing before with
  | refl => exact absurd hword (by simp)
  | @step d d₁ d'' events more first others hpassage hmore ih =>
    rcases List.append_eq_append_iff.1 hword with ⟨inside, hevents, hinside⟩ | ⟨later, rfl, hlater⟩
    · cases inside with
      | nil =>
        -- the passage ends where the event begins
        rw [List.append_nil] at hevents
        rw [hevents] at hpassage
        exact ⟨_, _, _, hpassage.regular, by rw [hinside]; exact hmore⟩
      | cons x inside =>
        obtain ⟨rfl, rfl⟩ := List.cons_eq_cons.1 hinside
        cases before with
        | nil =>
          rw [hevents] at hpassage
          exact ⟨_, _, _, .refl _, .step hpassage hmore⟩
        | cons y before =>
          -- inside a passage there are only end tags
          obtain ⟨_, rest, hcons, htags⟩ := hpassage.exists_cons
          rw [hcons, List.cons_append, List.cons_eq_cons] at hevents
          obtain ⟨e, he⟩ := htags event (by rw [hevents.2]; simp)
          exact absurd he (hend e)
    · obtain ⟨d', first', others', hfirst, hothers⟩ := ih hlater.symm
      exact ⟨d', _, _, .step hpassage hfirst, hothers⟩

/-! ## Passages by their first event -/

theorem textEvents_ne {text : String} (h : text ≠ "") :
    textEvents text = [.characterData text false] := if_neg h

/-- A passage that begins with text is no more than that, or goes on to the end of an element whose
text is written as it is. -/
theorem Passage.of_text {text : String}
    (h : Passage g d (.characterData text false :: tail) causes d') :
    d.pending = "" ∧ text ≠ "" ∧
      (tail = [] ∧ d' = { d with pending := text } ∨
        ∃ e, tail = [.endTag e] ∧ d.elements.current? = some e ∧ e.content = .cdata) := by
  generalize hword : Event.characterData text false :: tail = word at h
  cases h with
  | text hpending htext =>
    obtain ⟨hfirst, rfl⟩ := List.cons_eq_cons.1 hword
    cases hfirst
    exact ⟨hpending, htext, .inl ⟨rfl, rfl⟩⟩
  | @verbatim e delivered he hcdata hpending =>
    by_cases hempty : delivered = ""
    · rw [hempty] at hword
      cases hword
    · rw [textEvents_ne hempty] at hword
      obtain ⟨hfirst, rfl⟩ := List.cons_eq_cons.1 hword
      cases hfirst
      exact ⟨hpending, hempty, .inr ⟨e, rfl, he, hcdata⟩⟩
  | _ => cases hword

/-- A passage that begins with the space that does not break stands where text is permitted. -/
theorem Passage.of_space {text : String}
    (h : Passage g d (.characterData text true :: tail) causes d') :
    text = " " ∧ (d.elements.content.permitsText || d.elements.stack.isEmpty) = true := by
  generalize hword : Event.characterData text true :: tail = word at h
  cases h with
  | space hcontent hpermits =>
    cases hword
    exact ⟨rfl, hpermits⟩
  | @verbatim e delivered =>
    by_cases hempty : delivered = ""
    · rw [hempty] at hword
      cases hword
    · rw [textEvents_ne hempty] at hword
      cases hword
  | _ => cases hword

/-- A passage that begins with a start tag opens its element, or ends it as well if it is empty. -/
theorem Passage.of_startTag (h : Passage g d (.startTag e attributes :: tail) causes d') :
    d.elements.takesMarkup = true ∧ g.dtd.Spells e ∧
      (e.content ≠ .empty ∧ tail = [] ∧ d' = ⟨d.elements.push e, ""⟩ ∨
        e.content = .empty ∧ tail = [.endTag e]) := by
  generalize hword : Event.startTag e attributes :: tail = word at h
  cases h with
  | opened hbegins hempty =>
    cases hword
    exact ⟨hbegins.markup, hbegins.spelt, .inl ⟨hempty, rfl, rfl⟩⟩
  | empty hbegins hempty =>
    cases hword
    exact ⟨hbegins.markup, hbegins.spelt, .inr ⟨hempty, rfl⟩⟩
  | @verbatim e delivered =>
    by_cases hempty : delivered = ""
    · rw [hempty] at hword
      cases hword
    · rw [textEvents_ne hempty] at hword
      cases hword
  | _ => cases hword

/-! ## What follows -/

/-- Text that has been delivered may stand where it stands, unless an end tag without a declared
element follows it. -/
theorem Regular.deliverable (h : Regular g d events causes d'') (hpending : d.pending ≠ "")
    (hend : d''.Deliverable d''.elements.content) :
    d.Deliverable d.elements.content ∨
      ∃ x rest, events = .endTag x :: rest ∧ g.dtd.declares x.name = false ∧
        g.dialect.unknownEndTags = .synthesize ∧ d.Deliverable .pcdata := by
  cases h with
  | refl => exact .inl hend
  | step hpassage =>
    cases hpassage with
    | text hnone => exact absurd hnone hpending
    | space _ _ htext => exact .inl htext
    | opened hbegins => exact .inl hbegins.text
    | empty hbegins => exact .inl hbegins.text
    | closed _ _ htext => exact .inl htext
    | verbatim _ _ hnone => exact absurd hnone hpending
    | unknown hrule hdeclared htoken _ htext =>
      refine .inr ⟨_, _, rfl, ?_, hrule, htext⟩
      rw [name_ofName htoken]
      exact hdeclared

/-- A passage inside an element with raw content ends the element, or it is a text where text is not
written as it is. -/
theorem Passage.of_raw (h : Passage g d events causes d') (hd : d.elements.Sound g.dtd)
    (he : d.elements.current? = some e) (hraw : e.content.isRaw = true) :
    (∃ text, events = textEvents text ++ [.endTag e]) ∨
      e.content ≠ .cdata ∧ d'.elements = d.elements ∧
        ∃ text nonBreaking, events = [.characterData text nonBreaking] := by
  have hcontent := hd.content_of_current he
  have hmarkup : d.elements.takesMarkup ≠ true := fun hmarkup => by
    rw [Element.not_isRaw_of_takesMarkup (OpenElements.takesMarkup_of_current hmarkup he)] at hraw
    cases hraw
  cases h with
  | text _ _ hcdata =>
    rw [hcontent] at hcdata
    exact .inr ⟨hcdata, rfl, _, _, rfl⟩
  | space hcdata =>
    rw [hcontent] at hcdata
    exact .inr ⟨hcdata, rfl, _, _, rfl⟩
  | opened hbegins => exact absurd hbegins.markup hmarkup
  | empty hbegins => exact absurd hbegins.markup hmarkup
  | closed hcurrent =>
    rw [he] at hcurrent
    cases hcurrent
    exact .inl ⟨"", rfl⟩
  | verbatim hcurrent =>
    rw [he] at hcurrent
    cases hcurrent
    exact .inl ⟨_, rfl⟩
  | unknown _ _ _ htakes => exact absurd htakes hmarkup

/-- Text may stand in a raw element. -/
theorem rawContent_textEvents (e : Element) (text : String) : RawContent e (textEvents text) := by
  by_cases hempty : text = ""
  · rw [hempty]
    exact ⟨List.forall_mem_nil _, fun _ => .inl rfl⟩
  · rw [textEvents_ne hempty]
    exact ⟨fun x hx => by rw [List.mem_singleton.1 hx]; rfl, fun _ => .inr ⟨text, rfl⟩⟩

/-- An element with raw content goes on with text up to its end tag. -/
theorem Regular.raw_end (h : Regular g d events causes d'') (hd : d.elements.Sound g.dtd)
    (he : d.elements.current? = some e) (hraw : e.content.isRaw = true)
    (hend : d''.elements.stack = []) :
    ∃ texts rest, events = texts ++ .endTag e :: rest ∧ RawContent e texts := by
  induction h with
  | refl =>
    rw [OpenElements.stack_of_current he] at hend
    cases hend
  | @step d d' d'' events more causes others hpassage _ ih =>
    rcases hpassage.of_raw hd he hraw with ⟨text, rfl⟩ | ⟨hcdata, hsame, text, nonBreaking, rfl⟩
    · exact ⟨_, more, by rw [List.append_assoc]; rfl, rawContent_textEvents e text⟩
    · obtain ⟨texts, rest, rfl, htexts⟩ :=
        ih (hpassage.sound hd) (by rw [hsame]; exact he) hend
      refine ⟨.characterData text nonBreaking :: texts, rest, rfl, ?_⟩
      exact ⟨List.forall_mem_cons.2 ⟨rfl, htexts.onlyText⟩, fun h => absurd h hcdata⟩

/-! ## Where an event stands -/

/-- A document stands between events and those after them, which end it. -/
structure Document.Stands (g : Grammar) (d : Document) (before after : List Event) : Prop where
  /-- The open elements are sound. -/
  sound : d.elements.Sound g.dtd
  /-- They are those that the tags before have opened. -/
  opened : replay g.dtd before = d.elements.stack.reverse
  /-- The events after it lead to the end of the document. -/
  ends : ∃ body causes d', Regular g d body causes d' ∧ d'.elements.stack = [] ∧
    d'.Deliverable d'.elements.content ∧ after = body ++ [.finished]

/-- A document stands before each of its events, unless the event is an end tag. -/
theorem Document.Ends.exists_stands (h : Document.Ends g .start (before ++ event :: after))
    (hend : ∀ e, event ≠ .endTag e) (hfinished : event ≠ .finished) :
    ∃ d, Document.Stands g d before (event :: after) := by
  obtain ⟨body, causes, d', hregular, hstack, htext, hevents⟩ := h
  obtain ⟨rest, rfl, rfl⟩ : ∃ rest, after = rest ++ [.finished] ∧
      body = before ++ event :: rest := by
    rcases List.eq_nil_or_concat after with rfl | ⟨rest, last, rfl⟩
    · exact absurd (List.cons.inj (List.append_inj' hevents rfl).2).1 hfinished
    · rw [List.concat_eq_append, ← List.cons_append, ← List.append_assoc] at hevents
      obtain ⟨hbody, hlast⟩ := List.append_inj' hevents rfl
      exact ⟨rest, by rw [List.concat_eq_append, hlast], hbody.symm⟩
  obtain ⟨d, first, others, hfirst, hothers⟩ := hregular.split hend
  have hstart : Document.start.settled.elements.Sound g.dtd := OpenElements.sound_none
  exact ⟨d, hfirst.sound hstart, replay_of_regular hfirst hstart, _, others, d', hothers, hstack,
    htext, rfl⟩

namespace Document.Stands

/-- The innermost of the elements that the tags before have opened. -/
theorem current? (h : Stands g d before after) :
    (replay g.dtd before).getLast? = d.elements.current? := by
  rw [h.opened, List.getLast?_reverse]
  rfl

/-- The event before which a document stands begins a passage, and the document after the passage
stands before what follows. -/
theorem exists_passage (h : Stands g d before (event :: after)) (hfinished : event ≠ .finished) :
    ∃ tail rest d' causes, after = tail ++ rest ∧ Passage g d (event :: tail) causes d' ∧
      Stands g d' (before ++ event :: tail) rest := by
  obtain ⟨body, causes, d'', hregular, hstack, htext, hafter⟩ := h.ends
  cases body with
  | nil => exact absurd (List.cons.inj hafter).1 hfinished
  | cons x body =>
    obtain ⟨rfl, rfl⟩ := List.cons_eq_cons.1 hafter
    obtain ⟨tail, rest, d', first, others, rfl, hpassage, hmore⟩ := hregular.exists_passage
    refine ⟨tail, rest ++ [.finished], d', first, List.append_assoc _ _ _, hpassage,
      hpassage.sound h.sound, ?_, rest, others, d'', hmore, hstack, htext, rfl⟩
    rw [replay, List.foldl_append, ← replay, h.opened, hpassage.replay h.sound]

/-- What follows text that has been delivered. -/
theorem deliverable (h : Stands g d before after) (hpending : d.pending ≠ "") :
    d.Deliverable d.elements.content ∨
      ∃ x rest, after = .endTag x :: rest ∧ g.dtd.declares x.name = false ∧
        g.dialect.unknownEndTags = .synthesize ∧ d.Deliverable .pcdata := by
  obtain ⟨body, causes, d', hregular, -, htext, rfl⟩ := h.ends
  rcases hregular.deliverable hpending htext with hdeliverable | ⟨x, rest, rfl, hfollows⟩
  · exact .inl hdeliverable
  · exact .inr ⟨x, rest ++ [.finished], rfl, hfollows⟩

/-- A text is not empty and follows no other. It stays pending, or it is all that an element holds
whose text is written as it is. -/
theorem text {text : String} (h : Stands g d before (.characterData text false :: after)) :
    d.pending = "" ∧ text ≠ "" ∧
      (Stands g { d with pending := text } (before ++ [.characterData text false]) after ∨
        ∃ e rest, after = .endTag e :: rest ∧ d.elements.current? = some e ∧
          e.content = .cdata) := by
  obtain ⟨tail, rest, d', causes, rfl, hpassage, hstands⟩ := h.exists_passage (by simp)
  obtain ⟨hpending, htext, ⟨rfl, rfl⟩ | ⟨e, rfl, he, hcdata⟩⟩ := hpassage.of_text
  · exact ⟨hpending, htext, .inl hstands⟩
  · exact ⟨hpending, htext, .inr ⟨e, rest, rfl, he, hcdata⟩⟩

/-- Outside all elements text is not blank. -/
theorem text_outside {text : String} (h : Stands g d before (.characterData text false :: after))
    (hnone : d.elements.current? = none) : Text.allBlank text = false := by
  obtain ⟨-, htext, hstands | ⟨e, rest, -, he, -⟩⟩ := h.text
  · have hblank {content : ContentType}
        (hdeliverable : Document.Deliverable { d with pending := text } content) :
        Text.allBlank text = false := by
      have hnonblank := hdeliverable htext
      rw [hnone] at hnonblank
      exact hnonblank
    rcases hstands.deliverable htext with hdeliverable | ⟨x, rest, -, -, -, hdeliverable⟩
    · exact hblank hdeliverable
    · exact hblank hdeliverable
  · rw [hnone] at he
    cases he

/-- Inside an element that holds no text there is none but before the end tag of an element that is
not declared. -/
theorem text_elementOnly {text : String} {nonBreaking : Bool}
    (h : Stands g d before (.characterData text nonBreaking :: after))
    (he : d.elements.current? = some e) (hcontent : e.content = .model ∨ e.content = .empty) :
    nonBreaking = false ∧ g.dialect.unknownEndTags = .synthesize ∧
      ∃ x rest, after = .endTag x :: rest ∧ g.dtd.declares x.name = false := by
  have hpermits : d.elements.content.permitsText = false := by
    rw [h.sound.content_of_current he]
    rcases hcontent with hcontent | hcontent <;> rw [hcontent] <;> rfl
  cases nonBreaking with
  | true =>
    obtain ⟨tail, rest, d', causes, -, hpassage, -⟩ := h.exists_passage (by simp)
    have hpermitted := hpassage.of_space.2
    rw [hpermits, OpenElements.stack_of_current he] at hpermitted
    cases hpermitted
  | false =>
    obtain ⟨-, htext, hstands | ⟨x, rest, -, hx, hcdata⟩⟩ := h.text
    · rcases hstands.deliverable htext with hdeliverable | ⟨x, rest, rfl, hdeclared, hrule, -⟩
      · have hpermitted := hdeliverable htext
        rw [he] at hpermitted
        rw [show d.elements.content.permitsText = true from hpermitted] at hpermits
        cases hpermits
      · exact ⟨rfl, hrule, x, rest, rfl, hdeclared⟩
    · rw [he] at hx
      cases hx
      rcases hcontent with hcontent | hcontent <;> rw [hcontent] at hcdata <;> cases hcdata

/-- An empty element ends where it begins. -/
theorem empty (h : Stands g d before (.startTag e attributes :: after))
    (hempty : e.content = .empty) : ∃ rest, after = .endTag e :: rest := by
  obtain ⟨tail, rest, d', causes, rfl, hpassage, -⟩ := h.exists_passage (by simp)
  obtain ⟨-, -, ⟨hne, -⟩ | ⟨-, rfl⟩⟩ := hpassage.of_startTag
  · exact absurd hempty hne
  · exact ⟨rest, rfl⟩

/-- An element with raw content holds text up to its end tag. -/
theorem raw (h : Stands g d before (.startTag e attributes :: after))
    (hraw : e.content.isRaw = true) :
    ∃ texts rest, after = texts ++ .endTag e :: rest ∧ RawContent e texts := by
  obtain ⟨tail, rest, d', causes, rfl, hpassage, hstands⟩ := h.exists_passage (by simp)
  obtain ⟨-, -, ⟨-, rfl, rfl⟩ | ⟨hempty, -⟩⟩ := hpassage.of_startTag
  · obtain ⟨body, others, d'', hregular, hstack, -, rfl⟩ := hstands.ends
    obtain ⟨texts, more, rfl, htexts⟩ := hregular.raw_end hstands.sound rfl hraw hstack
    exact ⟨texts, more ++ [.finished], by simp, htexts⟩
  · rw [hempty] at hraw
    cases hraw

end Document.Stands

/-! ## The normal form -/

/-- Events that lead from the start of a document to its end are in normal form. -/
theorem normalForm_of_ends (h : Document.Ends g .start events) : NormalForm g events := by
  constructor
  · intro text nonBreaking hmem
    obtain ⟨before, after, rfl⟩ := List.append_of_mem hmem
    obtain ⟨d, hstands⟩ := h.exists_stands (by simp) (by simp)
    cases nonBreaking with
    | false => exact ⟨hstands.text.2.1, nofun⟩
    | true =>
      obtain ⟨tail, rest, d', causes, -, hpassage, -⟩ := hstands.exists_passage (by simp)
      obtain ⟨rfl, -⟩ := hpassage.of_space
      exact ⟨by decide, fun _ => rfl⟩
  · rintro before text text' after rfl
    obtain ⟨d, hstands⟩ := h.exists_stands (by simp) (by simp)
    obtain ⟨-, htext, hnext | ⟨e, rest, htag, -⟩⟩ := hstands.text
    · exact htext hnext.text.1
    · cases htag
  · rintro before text after rfl hreplay
    obtain ⟨d, hstands⟩ := h.exists_stands (by simp) (by simp)
    refine hstands.text_outside ?_
    rw [← hstands.current?, hreplay]
    rfl
  · rintro before text nonBreaking after e rfl hlast hcontent
    obtain ⟨d, hstands⟩ := h.exists_stands (by simp) (by simp)
    rw [hstands.current?] at hlast
    exact hstands.text_elementOnly hlast hcontent
  · rintro before e attributes after rfl hempty
    obtain ⟨d, hstands⟩ := h.exists_stands (by simp) (by simp)
    exact hstands.empty hempty
  · rintro before e attributes after rfl hraw
    obtain ⟨d, hstands⟩ := h.exists_stands (by simp) (by simp)
    exact hstands.raw hraw

/-- What each listener hears of a parse that succeeds is in normal form. -/
theorem hears_normalForm_of_parse {α : Type} [Listener α] (s : Session (Recorder α))
    (source : Source) (h : (s.parse source).2 = .ok ()) :
    List.Forall₂ (Recorder.Hears (NormalForm s.grammar)) s.listeners
      (s.parse source).1.listeners := by
  obtain ⟨hfinished, hall⟩ := (Session.hears_performTrace { s with log := s.log.clear }
    (Reader.read s.grammar source)).2 h
  refine Recorder.Hears.imp (fun heard hheard => ?_) hall
  rw [hheard]
  exact normalForm_of_ends (Reader.ends_read hfinished)

/-- Forms hold rules and titles in no order, and no text of their own. -/
def forms : Grammar where
  dtd := (((Dtd.ofRoot "F").addElement
    ((Element.ofName "F" .model).withModel ["R", "T"])).addElement
    (.ofName "R" .empty)).addElement (.ofName "T" .rcdata)
  dialect := .html

/-- Forms for a collector. -/
def formSession : Session Collector :=
  .start forms [.empty] false

/-- A record of events leaves a listener passive. -/
theorem passive_recorder {α : Type} [Listener α] (h : Passive α) : Passive (Recorder α) :=
  fun r event => h r.listener event

/-- A recorder has heard all events that it received. -/
theorem Recorder.events_receiveAll {α : Type} [Listener α] (r : Recorder α) (events : List Event) :
    (receiveAll r events).events = r.events ++ events := by
  induction events generalizing r with
  | nil => exact (List.append_nil _).symm
  | cons event events ih =>
    show (receiveAll (Listener.receive r event).1 events).events = _
    rw [ih]
    show (event :: r.heard).reverse ++ events = _
    rw [List.reverse_cons, List.append_assoc]
    rfl

/-- What is delivered of a form with text and an end tag that belong to none of its parts, an empty
rule and a title in which an end tag is all that is markup. -/
def formEvents : List Event :=
  let form := (Element.ofName "F" .model).withModel ["R", "T"]
  let rule := Element.ofName "R" .empty
  let title := Element.ofName "T" .rcdata
  [.startTag form .empty, .characterData "a" false, .endTag (.ofName "X" .pcdata),
    .startTag rule .empty, .endTag rule, .startTag title .empty, .characterData "b" false,
    .characterData " " true, .characterData "<c>" false, .endTag title, .endTag form, .finished]

/-- The listener of a session for forms hears these events of a form. -/
theorem hears_normalForm_forms :
    ((formSession.recording.parse (.ofText "<F>a</X><R><T>b&nbsp;<c></T> </F>")).2 = .ok () ∧
        (formSession.recording.parse
          (.ofText "<F>a</X><R><T>b&nbsp;<c></T> </F>")).1.listeners.map Recorder.events =
          [formEvents]) ∧
      List.Forall₂ (Recorder.Hears (NormalForm forms)) formSession.recording.listeners
        (formSession.recording.parse
          (.ofText "<F>a</X><R><T>b&nbsp;<c></T> </F>")).1.listeners := by
  obtain ⟨hlisteners, -, hresult⟩ := Session.parse_of_passive (passive_recorder passive_collector)
    formSession.recording rfl (.ofText "<F>a</X><R><T>b&nbsp;<c></T> </F>")
  rw [Reader.outcome_ofText] at hresult
  have hevents : (Reader.read formSession.recording.grammar
      (.ofText "<F>a</X><R><T>b&nbsp;<c></T> </F>")).events = formEvents := by
    apply Reader.shows_of_runWithin (n := 80)
    decide +kernel
  refine ⟨⟨hresult, ?_⟩, hears_normalForm_of_parse _ _ hresult⟩
  have hstart : formSession.recording.listeners = [⟨.empty, []⟩] := rfl
  rw [hlisteners, hevents, hstart, List.map_singleton, List.map_singleton,
    Recorder.events_receiveAll]
  rfl

end Markup
