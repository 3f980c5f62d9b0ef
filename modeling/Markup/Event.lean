import Markup.Dtd.Declaration
import Markup.Text.Quoted

/-!
# Events

A document is read as a sequence of events: elements begin and end, text stands between the tags,
and the last event says that nothing follows.
-/

namespace Markup

/-- An attribute of a start tag. -/
structure Attribute where
  /-- The name of the attribute. -/
  name : String
  /-- Its value, with references replaced. -/
  value : String
  deriving DecidableEq, Repr

instance : Keyed Attribute := ⟨Attribute.name⟩

/-- The attributes of a start tag in the order of their names. -/
abbrev Attributes := Registry Attribute

/-- One step of a document. -/
inductive Event where
  /-- An element begins. -/
  | startTag (element : Element) (attributes : Attributes)
  /-- An element ends. -/
  | endTag (element : Element)
  /-- Text between two tags; `nonBreaking` marks the single space of the space entity. -/
  | characterData (text : String) (nonBreaking : Bool)
  /-- The document has ended. -/
  | finished
  deriving DecidableEq

/-- An event without what it carries. -/
inductive EventKind where
  /-- The kind of `Event.startTag`. -/
  | startTag
  /-- The kind of `Event.endTag`. -/
  | endTag
  /-- The kind of `Event.characterData`. -/
  | characterData
  /-- The kind of `Event.finished`. -/
  | finished
  deriving DecidableEq, Repr

/-- The written form of a kind. -/
def EventKind.name : EventKind → String
  | .startTag => "StartTag"
  | .endTag => "EndTag"
  | .characterData => "CharacterData"
  | .finished => "ParsingFinished"

namespace Event

/-- The kind of an event. -/
def kind : Event → EventKind
  | startTag .. => .startTag
  | endTag _ => .endTag
  | characterData .. => .characterData
  | finished => .finished

/-- The event on one line: tags as tags, text quoted. -/
def describe : Event → String
  | startTag element attributes =>
    "<" ++ element.name.text ++
      String.join (attributes.items.map fun a => " " ++ a.name ++ "=" ++ Text.quote a.value) ++ ">"
  | endTag element => "</" ++ element.name.text ++ ">"
  | characterData _ true => "&nbsp;"
  | characterData text false => Text.quote text
  | finished => "EOF"

end Event

end Markup
