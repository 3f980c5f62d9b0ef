import Markup.Event

/-!
# Where the reader stands

The reader takes one character at a time. Its mode says which construct the next character belongs
to, and holds what has been read of that construct so far.
-/

namespace Markup.Reader

/-- Whether a character begins a name. -/
def isNameStart (c : Char) : Bool := c.isAlpha

/-- Whether a character goes on with a name. -/
def isNameChar (c : Char) : Bool := c.isAlphanum || c == '.' || c == '-'

/-- Where text stands. -/
inductive Place where
  /-- Between tags. -/
  | content
  /-- Inside an element whose content is raw. -/
  | raw (element : Element)

/-- A start tag whose attributes are being read. -/
structure Tag where
  /-- The element that begins. -/
  element : Element
  /-- The attributes read so far. -/
  attributes : Attributes

/-- An attribute whose value is being read. -/
structure Value where
  /-- The tag of the attribute. -/
  tag : Tag
  /-- The name of the attribute. -/
  name : Name
  /-- The quotation mark around the value, if there is one. -/
  mark : Option Char
  /-- The value so far. -/
  text : String

/-- Where a reference stands. -/
inductive Site where
  /-- In text. -/
  | text (place : Place)
  /-- In the value of an attribute. -/
  | value (value : Value)

/-- What the next character belongs to. -/
inductive Mode where
  /-- Text. -/
  | text (place : Place)
  /-- Text, after a carriage return. -/
  | textReturn (place : Place)
  /-- A reference, after `&`. -/
  | reference (site : Site)
  /-- A numeric reference, after `&#`. -/
  | numericReference (site : Site)
  /-- The digits of a numeric reference. -/
  | digits (site : Site) (hexadecimal : Bool) (digits : List Char)
  /-- The name of an entity. -/
  | entityName (site : Site) (name : String)
  /-- Markup, after `<`. -/
  | markup
  /-- An end tag, after `</`. -/
  | endTag
  /-- The name of an end tag. -/
  | endTagName (name : String)
  /-- The rest of an end tag. -/
  | endTagRest (name : Name)
  /-- A declaration, after `<!`. -/
  | declaration
  /-- A declaration, after `<!-`. -/
  | declarationDash
  /-- A comment, after so many dashes in a row. -/
  | comment (dashes : Nat)
  /-- Anything up to the next `>`. -/
  | skipped
  /-- The name of a start tag. -/
  | startTagName (name : String)
  /-- The rest of a start tag without a declared element. -/
  | startTagRest
  /-- A start tag, between attributes. -/
  | attributes (tag : Tag)
  /-- The name of an attribute. -/
  | attributeName (tag : Tag) (name : String)
  /-- A start tag, after the name of an attribute. -/
  | attributeNameEnd (tag : Tag) (name : Name)
  /-- A start tag, after `=`. -/
  | valueStart (tag : Tag) (name : Name)
  /-- The value of an attribute. -/
  | value (value : Value)
  /-- The value of an attribute, after a carriage return. -/
  | valueReturn (value : Value)
  /-- Raw text, after `<`. -/
  | rawMarkup (element : Element)
  /-- Raw text, after `</` and a part of the name of the element; `expected` is the part that has
  not been seen. -/
  | rawEndTag (element : Element) (expected : List Char) (seen : String)
  /-- The rest of the end tag that ends raw text. -/
  | rawEndTagRest (element : Element)

/-- Whether references are recognised in a place. -/
def Place.honoursReferences : Place → Bool
  | .content => true
  | .raw element => element.content == .rcdata

/-- The mode after a reference. -/
def Site.mode : Site → Mode
  | .text place => .text place
  | .value v => .value v

/-- Whether a reference is being read in text. Expansions are held as long as one is. -/
@[simp] def Mode.isHeld : Mode → Bool
  | .reference (.text _) | .numericReference (.text _) | .digits (.text _) ..
  | .entityName (.text _) .. => true
  | _ => false

end Markup.Reader
