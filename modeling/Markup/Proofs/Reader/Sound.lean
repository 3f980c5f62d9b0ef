import Markup.Proofs.Events.Tags
import Markup.Proofs.Reader.Reaches

/-!
# Sound states

A state of the reader is sound when the open elements are (`OpenElements.Sound`), the mode fits them
(`Mode.Fits`), and text that is being read inside an element with raw content holds no end tag of
it (`State.RawSound`).

`Deed g s actions t` says what a step from `s` to `t` does to the document. Most steps do nothing to
it but add to its text; the others are one operation on the document each, and only from a certain
mode. The rest of the theory of the reader follows from these cases.
-/

namespace Markup

/-- The characters that come before the first read that fails. -/
def Source.readable : Source → List Char
  | .ok c :: rest => c :: readable rest
  | _ => []

namespace Reader

/-! ## Modes that fit the open elements -/

/-- The element of the start tag in which a reference stands. -/
def Site.element? : Site → Option Element
  | .text _ => none
  | .value v => some v.tag.element

/-- The element of the start tag that is being read. -/
def Mode.element? : Mode → Option Element
  | .reference site | .numericReference site | .digits site .. | .entityName site _ =>
    site.element?
  | .value v | .valueReturn v => some v.tag.element
  | .attributes tag | .attributeName tag _ | .attributeNameEnd tag _ | .valueStart tag _ =>
    some tag.element
  | _ => none

/-- A start tag that can be ended where it stands. -/
structure Tag.Fits (g : Grammar) (s : OpenElements) (t : Tag) : Prop where
  /-- Tags are recognised. -/
  markup : s.takesMarkup = true
  /-- The element can be named. -/
  spelt : g.dtd.Spells t.element
  /-- The attributes can be written. -/
  attributes : ∀ a ∈ t.attributes.items, a.Spelled
  /-- There is room for the element. -/
  room : s.HasRoom g.dtd t.element

/-- An attribute whose tag fits. -/
structure Value.Fits (g : Grammar) (s : OpenElements) (v : Value) : Prop where
  /-- The tag fits. -/
  tag : v.tag.Fits g s
  /-- The name can be spelt. -/
  name : isToken v.name.text = true

/-- A place of text inside the innermost element. -/
def Place.Fits (s : OpenElements) : Place → Prop
  | .content => s.takesMarkup = true
  | .raw e => s.current? = some e ∧ e.content.isRaw = true

/-- A place where references are recognised. -/
def Site.Fits (g : Grammar) (s : OpenElements) : Site → Prop
  | .text place => place.Fits s ∧ place.honoursReferences = true
  | .value v => v.Fits g s

/-- What a mode holds belongs to the open elements. -/
def Mode.Fits (g : Grammar) (s : OpenElements) : Mode → Prop
  | .text place | .textReturn place => place.Fits s
  | .reference site | .numericReference site | .digits site .. | .entityName site _ => site.Fits g s
  | .markup | .endTag | .declaration | .declarationDash | .comment _ | .skipped | .startTagRest =>
    s.takesMarkup = true
  | .endTagName name | .startTagName name => s.takesMarkup = true ∧ isToken name = true
  | .endTagRest name => s.takesMarkup = true ∧ isToken name.text = true
  | .attributes tag => tag.Fits g s
  | .attributeName tag name => tag.Fits g s ∧ isToken name = true
  | .attributeNameEnd tag name | .valueStart tag name =>
    tag.Fits g s ∧ isToken name.text = true
  | .value v | .valueReturn v => v.Fits g s
  | .rawMarkup e | .rawEndTagRest e => Place.Fits s (.raw e)
  | .rawEndTag e expected seen =>
    Place.Fits s (.raw e) ∧ ∃ spelling, seen.toList = '<' :: '/' :: spelling ∧
      (spelling ++ expected).map Char.toUpper = e.name.text.toList.map Char.toUpper

/-- The element whose raw text is being read, and what was read of it and may yet be text. -/
def Mode.withheld? : Mode → Option (Element × List Char)
  | .text (.raw e) => some (e, [])
  | .textReturn (.raw e) => some (e, ['\n'])
  | .rawMarkup e | .rawEndTagRest e => some (e, ['<'])
  | .rawEndTag e _ seen => some (e, seen.toList)
  | _ => none

namespace State

/-- The characters to come, up to a read that fails. -/
def ahead (s : State) : List Char :=
  s.input.upcoming.readable

/-- No end tag begins in raw text. -/
def RawSound (s : State) : Prop :=
  ∀ e withheld, s.mode.withheld? = some (e, withheld) → e.content = .cdata →
    e.Verbatim s.document.pending (withheld ++ s.ahead)

/-- What holds of every state that the reader gets to. -/
structure Sound (g : Grammar) (s : State) : Prop where
  /-- The open elements are sound. -/
  elements : s.document.elements.Sound g.dtd
  /-- The mode fits them. -/
  mode : s.mode.Fits g s.document.elements
  /-- No end tag begins in raw text. -/
  raw : s.RawSound

/-- The mode says which start tag is being read. -/
theorem element?_of_mode {s : State} {mode : Mode} {e? : Option Element} (hmode : s.mode = mode)
    (h : mode.element? = e?) : s.mode.element? = e? := by
  rw [hmode, h]

/-- The mode that a sound state is in fits its open elements. -/
theorem Sound.fits {g : Grammar} {s : State} {mode : Mode} (hs : s.Sound g)
    (hmode : s.mode = mode) : mode.Fits g s.document.elements := by
  rw [← hmode]
  exact hs.mode

end State

/-! ## What a step does -/

/-- What a step from `s` to `t` does to the document. -/
inductive Deed (g : Grammar) (s : State) : List Action → State → Prop
  /-- Nothing happens to the open elements, and nothing is delivered. -/
  | quiet {actions : List Action} {t : State} : actionEvents actions = [] →
      (∀ cause ∈ actionCauses actions, cause.isMisplacedTag = false) →
      t.document.elements = s.document.elements → t.mode.element? = s.mode.element? →
      Deed g s actions t
  /-- The name of a start tag ends, and room is made for its element. -/
  | room {name : String} {e : Element} {line : Nat} {t : State} : s.mode = .startTagName name →
      g.dtd.element? (.fold name) = some e → t.mode = .attributes ⟨e, .empty⟩ →
      t.document = (s.document.makeRoom g.dtd line e).1 →
      Deed g s (s.document.makeRoom g.dtd line e).2 t
  /-- A start tag ends, and its element begins. -/
  | opened {tag : Tag} {line : Nat} {place : Place} {t : State} : s.mode = .attributes tag →
      tag.element.content ≠ .empty → t.mode = .text place →
      t.document = (s.document.openElement line tag.element tag.attributes).1 →
      Deed g s (s.document.openElement line tag.element tag.attributes).2 t
  /-- A start tag ends, and its empty element begins and ends. -/
  | empty {tag : Tag} {line : Nat} {t : State} : s.mode = .attributes tag →
      tag.element.content = .empty → t.mode = .text .content →
      t.document =
        ((s.document.openElement line tag.element tag.attributes).1.closeCurrent line).1 →
      Deed g s ((s.document.openElement line tag.element tag.attributes).2 ++
        ((s.document.openElement line tag.element tag.attributes).1.closeCurrent line).2) t
  /-- An end tag ends. -/
  | closed {name : Name} {line : Nat} {t : State} : s.mode = .endTagRest name →
      g.dtd.declares name = true → t.mode = .text .content →
      t.document = (s.document.closeElement line name).1 →
      Deed g s (s.document.closeElement line name).2 t
  /-- The end tag of raw text ends. -/
  | rawClosed {e : Element} {line : Nat} {t : State} : s.mode = .rawEndTagRest e →
      t.mode = .text .content → t.document = (s.document.closeCurrent line).1 →
      Deed g s (s.document.closeCurrent line).2 t
  /-- A reference to the space that does not break ends. -/
  | space {place : Place} {name : String} {line : Nat} {t : State} :
      s.mode = .entityName (.text place) name → g.dialect.spaceEntity = some name →
      t.mode = .text place → t.document = (s.document.space line).1 →
      Deed g s (s.document.space line).2 t
  /-- An end tag without a declared element ends. -/
  | unknown {name : Name} {line : Nat} {t : State} : s.mode = .endTagRest name →
      g.dtd.declares name = false → g.dialect.unknownEndTags = .synthesize →
      t.mode = .text .content → t.document = (s.document.flushAs line .pcdata true).1 →
      Deed g s ((s.document.flushAs line .pcdata true).2 ++
        [.deliver (.endTag (.ofName name.text .pcdata))]) t

/-- What a sound move is: a deed that leads to a sound state, the end of the document in text, or a
failure without any action. -/
def Proceeds (g : Grammar) (s : State) : Move → Prop
  | (actions, .running t) => Deed g s actions t ∧ t.Sound g
  | (actions, .stopped .finished) =>
    ∃ place line, s.mode = .text place ∧ s.ahead = [] ∧ actions = (s.document.finish line).2
  | (actions, .stopped (.failed _)) => actions = []

end Reader

end Markup
