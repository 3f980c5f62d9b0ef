import Markup.Proofs.Names
import Markup.Proofs.Reader.RawText
import Markup.Reader.Step

/-!
# Regular events

Not every list of events can be what a reader delivers, and not every one can be written as markup
that reads as the same events. `Passage g d events causes d'` lists the moves that are possible for
both: from the document `d` to the document `d'` with these events, where `d.pending` is the text
that was delivered last and that no tag has followed yet. Reading the markup of the events finds
problems with these causes. `Regular` chains passages.

The start and the end of an empty element are one passage, and so are the text and the end of an
element whose text is written as it is: neither the writer nor the reader stops between the two.
-/

namespace Markup

/-! ## What can be open -/

/-- Whether tags are recognised right inside an element. -/
def Element.takesMarkup (e : Element) : Bool :=
  !e.content.isRaw && e.content != .empty

/-- An element that a start tag can name. -/
structure Dtd.Spells (d : Dtd) (e : Element) : Prop where
  /-- The declaration of its name is the element. -/
  declared : d.element? e.name = some e
  /-- Its name can be spelt in markup. -/
  token : isToken e.name.text = true

/-- An element that is spelt by its declaration is declared. -/
theorem Dtd.Spells.declares {d : Dtd} {e : Element} (h : d.Spells e) :
    d.declares e.name = true := by
  show (d.element? e.name).isSome = true
  rw [h.declared]
  rfl

/-- An element made up by an end tag keeps the name of the tag. -/
theorem name_ofName {name : Name} (h : isToken name.text = true) (content : ContentType) :
    (Element.ofName name.text content).name = name := by
  have hblank : ∀ c ∈ name.text.toList, Text.isBlank c = false := fun c hc =>
    Reader.not_isBlank_of_isNameChar (isNameChar_of_mem_token h hc)
  have htrimmed : Text.trim name.text = name.text := by
    have hdrop {cs : List Char} (hcs : ∀ c ∈ cs, Text.isBlank c = false) :
        cs.dropWhile Text.isBlank = cs := by
      cases cs with
      | nil => rfl
      | cons c cs => rw [List.dropWhile_cons, hcs c (by simp), if_neg (by decide)]
    unfold Text.trim Text.trimList
    rw [hdrop hblank, hdrop fun c hc => hblank c (List.mem_reverse.1 hc), List.reverse_reverse,
      String.ofList_toList]
  show Name.fold (Text.trim name.text) = name
  rw [htrimmed, Name.fold_text]

/-- An attribute that a start tag can hold. -/
structure Attribute.Spelled (a : Attribute) : Prop where
  /-- The name is in upper case. -/
  upper : a.name.toUpper = a.name
  /-- The name can be spelt in markup. -/
  token : isToken a.name = true

/-- Where markup is recognised the content is not raw. -/
theorem Element.not_isRaw_of_takesMarkup {e : Element} (h : e.takesMarkup = true) :
    e.content.isRaw = false := by
  simp only [takesMarkup, Bool.and_eq_true, Bool.not_eq_true'] at h
  exact h.1

namespace OpenElements

/-- Whether tags are recognised inside the innermost element. -/
def takesMarkup (s : OpenElements) : Bool :=
  s.stack.head?.all Element.takesMarkup

/-- Whether an element can begin without the end of another: it is admitted, or nothing would have
it admitted. -/
def HasRoom (d : Dtd) (s : OpenElements) (e : Element) : Prop :=
  s.admits d e = true ∨ s.closingsFor? d e = Option.none

/-- What holds of the open elements throughout a document. -/
structure Sound (d : Dtd) (s : OpenElements) : Prop where
  /-- What is kept beside the stack belongs to the stack. -/
  cached : s = ofStack s.stack
  /-- Each element was named by a start tag. -/
  spelt : ∀ e ∈ s.stack, d.Spells e
  /-- Empty elements do not stay open. -/
  nonempty : ∀ e ∈ s.stack, e.content ≠ .empty
  /-- Only the innermost element may hold raw text. -/
  enclosing : ∀ e ∈ s.stack.tail, e.takesMarkup = true

variable {d : Dtd} {s : OpenElements} {e : Element}

/-- A state in which nothing is open is sound. -/
theorem sound_none : none.Sound d :=
  ⟨rfl, List.forall_mem_nil _, List.forall_mem_nil _, List.forall_mem_nil _⟩

/-- Beginning an element where tags are recognised keeps the open elements sound. -/
theorem Sound.push (h : s.Sound d) (hmarkup : s.takesMarkup = true) (he : d.Spells e)
    (hempty : e.content ≠ .empty) : (s.push e).Sound d := by
  constructor
  · show s.push e = ofStack (e :: s.stack)
    rw [h.cached]
    rfl
  · intro x hx
    rcases List.mem_cons.1 hx with rfl | hx
    · exact he
    · exact h.spelt x hx
  · intro x hx
    rcases List.mem_cons.1 hx with rfl | hx
    · exact hempty
    · exact h.nonempty x hx
  · intro x (hx : x ∈ s.stack)
    cases hstack : s.stack with
    | nil =>
      rw [hstack] at hx
      cases hx
    | cons y ys =>
      rw [hstack] at hx
      rcases List.mem_cons.1 hx with rfl | hx
      · simpa [takesMarkup, hstack] using hmarkup
      · exact h.enclosing x (by rwa [hstack])

@[simp] theorem stack_pop : s.pop.stack = s.stack.tail := rfl

/-- Ending the innermost element keeps the open elements sound. -/
theorem Sound.pop (h : s.Sound d) : s.pop.Sound d :=
  ⟨rfl, fun e he => h.spelt e (List.mem_of_mem_tail he),
    fun e he => h.nonempty e (List.mem_of_mem_tail he),
    fun e he => h.enclosing e (List.mem_of_mem_tail he)⟩

/-- Once an element has ended the elements around it are what is open. -/
theorem Sound.pop_push (h : s.Sound d) (e : Element) : (s.push e).pop = s :=
  h.cached.symm

/-- Tags are recognised where an element ends. -/
theorem Sound.takesMarkup_pop (h : s.Sound d) : s.pop.takesMarkup = true := by
  unfold takesMarkup
  rw [stack_pop]
  cases htail : s.stack.tail with
  | nil => rfl
  | cons e es => exact h.enclosing e (by simp [htail])

/-- The innermost element recognises tags where tags are recognised. -/
theorem takesMarkup_of_current (h : s.takesMarkup = true) (he : s.current? = some e) :
    e.takesMarkup = true := by
  unfold current? at he
  rw [takesMarkup, he] at h
  exact h

/-- The innermost element comes before those that are open once it has ended. -/
theorem stack_of_current (he : s.current? = some e) : s.stack = e :: s.pop.stack := by
  obtain ⟨rest, hstack⟩ := List.head?_eq_some_iff.1 he
  rw [stack_pop, hstack, List.tail_cons]

/-- The innermost element was named by a start tag. -/
theorem Sound.spells_of_current (h : s.Sound d) (he : s.current? = some e) : d.Spells e :=
  h.spelt e (List.mem_of_mem_head? he)

/-- Without an innermost element there is none at all. -/
theorem current?_eq_none : s.current? = Option.none ↔ s.stack = [] :=
  List.head?_eq_none_iff

/-- Where tags are recognised the innermost element has no text that is written as it is. -/
theorem ne_cdata_of_current (hmarkup : s.takesMarkup = true) (he : s.current? = some e) :
    e.content ≠ .cdata := by
  intro hcdata
  have hraw := Element.not_isRaw_of_takesMarkup (takesMarkup_of_current hmarkup he)
  rw [hcdata] at hraw
  cases hraw

/-- The content type beside the stack is that of the innermost element. -/
theorem Sound.content_of_current (h : s.Sound d) (he : s.current? = some e) :
    s.content = e.content := by
  rw [h.cached, ofStack]
  unfold current? at he
  rw [he]
  rfl

/-- The content type beside an empty stack. -/
theorem Sound.content_of_none (h : s.Sound d) (he : s.current? = Option.none) :
    s.content = .modelPcdata := by
  rw [h.cached, ofStack]
  unfold current? at he
  rw [he]
  rfl

/-- Where tags are recognised no text is written as it is. -/
theorem Sound.content_ne_cdata (h : s.Sound d) (hmarkup : s.takesMarkup = true) :
    s.content ≠ .cdata := by
  intro hcdata
  cases hcurrent : s.current? with
  | none =>
    rw [h.content_of_none hcurrent] at hcdata
    cases hcdata
  | some e =>
    rw [h.content_of_current hcurrent] at hcdata
    exact ne_cdata_of_current hmarkup hcurrent hcdata

end OpenElements

/-! ## Text -/

/-- A text that can be written as it is inside an element with raw content, when `rest` follows. -/
structure Element.Verbatim (e : Element) (text : String) (rest : List Char) : Prop where
  /-- A carriage return would be read as a line feed. -/
  noReturn : '\r' ∉ text.toList
  /-- The text does not end the element. -/
  undelimited : Reader.Undelimited e.name.text.toList text.toList rest

/-- The event of a text; an empty one has none. -/
def textEvents (text : String) : List Event :=
  if text = "" then [] else [.characterData text false]

@[simp] theorem textEvents_empty : textEvents "" = [] := rfl

namespace Document

/-- The document without its text. -/
def settled (d : Document) : Document :=
  { d with pending := "" }

/-- The text of the document is delivered as it is when it is flushed as content of a type. -/
def Deliverable (d : Document) (content : ContentType) : Prop :=
  d.pending ≠ "" →
    match d.elements.current? with
    | none => Text.allBlank d.pending = false
    | some _ => content.permitsText = true

@[simp] theorem elements_settled (d : Document) : d.settled.elements = d.elements := rfl

@[simp] theorem settled_mk (elements : OpenElements) (pending : String) :
    settled ⟨elements, pending⟩ = ⟨elements, ""⟩ := rfl

/-- Where no text is pending, nothing is refused. -/
theorem deliverable_of_empty {d : Document} (h : d.pending = "") (content : ContentType) :
    d.Deliverable content := fun hne => absurd h hne

/-- Inside an element text is delivered where the content type permits it. -/
theorem deliverable_of_current {d : Document} {e : Element} {content : ContentType}
    (he : d.elements.current? = some e) (h : content.permitsText = true) :
    d.Deliverable content := by
  unfold Deliverable
  rw [he]
  exact fun _ => h

/-- Outside all elements text is delivered that is not blank. -/
theorem deliverable_of_none {d : Document} (hnone : d.elements.current? = none)
    (h : Text.allBlank d.pending = false) (content : ContentType) : d.Deliverable content := by
  unfold Deliverable
  rw [hnone]
  exact fun _ => h

end Document

/-! ## Start tags -/

/-- The problem with an attribute of a start tag. -/
def undeclaredAttribute (g : Grammar) (e : Element) (a : Attribute) : List IssueCause :=
  if g.dialect.attributes = .declared && !e.hasAttribute (.fold a.name) then
    [.undefinedAttribute (.fold a.name) e.name]
  else []

/-- The problems with the attributes of a start tag. -/
def undeclaredAttributes (g : Grammar) (e : Element) (attributes : Attributes) : List IssueCause :=
  attributes.items.flatMap (undeclaredAttribute g e)

/-- The problem with the place of an element. -/
def misplacement (g : Grammar) (s : OpenElements) (e : Element) : List IssueCause :=
  if s.admits g.dtd e then [] else [.unexpectedElement e.name (s.current?.map Element.name)]

/-- A start tag that begins its element right where it stands. -/
structure Document.Begins (g : Grammar) (d : Document) (e : Element) (attributes : Attributes) :
    Prop where
  /-- Tags are recognised. -/
  markup : d.elements.takesMarkup = true
  /-- The element can be named. -/
  spelt : g.dtd.Spells e
  /-- The attributes can be written. -/
  attributes : ∀ a ∈ attributes.items, a.Spelled
  /-- No element has to end. -/
  room : d.elements.HasRoom g.dtd e
  /-- The text before it is delivered. -/
  text : d.Deliverable d.elements.content

/-! ## Passages -/

/-- Events that lead from one document to another, and the problems of their markup. -/
inductive Passage (g : Grammar) (d : Document) :
    List Event → List IssueCause → Document → Prop
  /-- Text. -/
  | text {text : String} : d.pending = "" → text ≠ "" → d.elements.content ≠ .cdata →
      Passage g d [.characterData text false] [] { d with pending := text }
  /-- A space that does not break. -/
  | space : d.elements.content ≠ .cdata →
      (d.elements.content.permitsText || d.elements.stack.isEmpty) = true →
      d.Deliverable d.elements.content → g.dialect.spaceEntity.isSome = true →
      Passage g d [.characterData " " true] [] d.settled
  /-- The start of an element with content. -/
  | opened {e : Element} {attributes : Attributes} : d.Begins g e attributes →
      e.content ≠ .empty →
      Passage g d [.startTag e attributes]
        (misplacement g d.elements e ++ undeclaredAttributes g e attributes)
        ⟨d.elements.push e, ""⟩
  /-- An element without content. -/
  | empty {e : Element} {attributes : Attributes} : d.Begins g e attributes →
      e.content = .empty →
      Passage g d [.startTag e attributes, .endTag e]
        (misplacement g d.elements e ++ undeclaredAttributes g e attributes) d.settled
  /-- The end of an element. -/
  | closed {e : Element} : d.elements.current? = some e → e.content ≠ .cdata →
      d.Deliverable d.elements.content → Passage g d [.endTag e] [] ⟨d.elements.pop, ""⟩
  /-- The rest of an element whose text is written as it is. -/
  | verbatim {e : Element} {text : String} : d.elements.current? = some e → e.content = .cdata →
      d.pending = "" → e.Verbatim text [] →
      Passage g d (textEvents text ++ [.endTag e]) [] ⟨d.elements.pop, ""⟩
  /-- An end tag without a declared element. -/
  | unknown {name : Name} : g.dialect.unknownEndTags = .synthesize →
      g.dtd.declares name = false → isToken name.text = true → d.elements.takesMarkup = true →
      d.Deliverable .pcdata → Passage g d [.endTag (.ofName name.text .pcdata)] [] d.settled

/-- Events that lead from one document to another in any number of passages. -/
inductive Regular (g : Grammar) : Document → List Event → List IssueCause → Document → Prop
  /-- No event. -/
  | refl (d : Document) : Regular g d [] [] d
  /-- A passage and what follows it. -/
  | step {d d' d'' : Document} {events more : List Event} {causes others : List IssueCause} :
      Passage g d events causes d' → Regular g d' more others d'' →
      Regular g d (events ++ more) (causes ++ others) d''

variable {g : Grammar} {d d' d'' : Document} {events more : List Event}
  {causes others : List IssueCause}

/-- A single passage is regular. -/
theorem Passage.regular (h : Passage g d events causes d') : Regular g d events causes d' := by
  have hchain := Regular.step h (.refl d')
  rwa [List.append_nil, List.append_nil] at hchain

/-- Regular events are chained. -/
theorem Regular.trans (h : Regular g d events causes d') (h' : Regular g d' more others d'') :
    Regular g d (events ++ more) (causes ++ others) d'' := by
  induction h with
  | refl => exact h'
  | step hpassage _ ih =>
    rw [List.append_assoc, List.append_assoc]
    exact .step hpassage (ih h')

/-- A passage keeps the open elements sound. -/
theorem Passage.sound (h : Passage g d events causes d') (hd : d.elements.Sound g.dtd) :
    d'.elements.Sound g.dtd := by
  cases h with
  | text => exact hd
  | space => exact hd
  | opened hbegins hempty => exact hd.push hbegins.markup hbegins.spelt hempty
  | empty => exact hd
  | closed => exact hd.pop
  | verbatim => exact hd.pop
  | unknown => exact hd

/-- Regular events keep the open elements sound. -/
theorem Regular.sound (h : Regular g d events causes d') (hd : d.elements.Sound g.dtd) :
    d'.elements.Sound g.dtd := by
  induction h with
  | refl => exact hd
  | step hpassage _ ih => exact ih (hpassage.sound hd)

/-- Text may follow where none is pending. -/
theorem regular_textEvents (text : String) (hcontent : d.elements.content ≠ .cdata) :
    Regular g d.settled (textEvents text) [] { d with pending := text } := by
  unfold textEvents
  by_cases htext : text = ""
  · subst htext
    exact .refl _
  · rw [if_neg htext]
    exact (Passage.text (d := d.settled) rfl htext hcontent).regular

end Markup
