/-!
# Content types

Every element declares what may stand between its tags. The type decides three things: whether
text is delivered there (`permitsText`), whether a content model names the children (`hasModel`),
and whether markup is recognised at all (`isRaw`).
-/

namespace Markup

/-- What an element may contain. -/
inductive ContentType where
  /-- Parsed text without child elements. -/
  | pcdata
  /-- Text in which neither markup nor references are recognised. -/
  | cdata
  /-- Text in which references are recognised and markup is not. -/
  | rcdata
  /-- Nothing; the element ends where it begins. -/
  | empty
  /-- Child elements named by the content model. -/
  | model
  /-- Child elements named by the content model, with text between them. -/
  | modelPcdata
  deriving DecidableEq, Repr, Inhabited

namespace ContentType

/-- Every content type. -/
def all : List ContentType := [pcdata, cdata, rcdata, empty, model, modelPcdata]

/-- The written form of a content type. -/
def name : ContentType → String
  | pcdata => "PCDATA"
  | cdata => "CDATA"
  | rcdata => "RCDATA"
  | empty => "EMPTY"
  | model => "MODEL"
  | modelPcdata => "MODEL_PCDATA"

/-- The content type written as `text`, in either case. -/
def ofName? (text : String) : Option ContentType :=
  all.find? (·.name = text.toUpper)

/-- Whether text directly inside such an element is delivered. -/
def permitsText : ContentType → Bool
  | model | empty => false
  | _ => true

/-- Whether a content model governs the children. -/
def hasModel : ContentType → Bool
  | model | modelPcdata => true
  | _ => false

/-- Whether the content is scanned as text up to the end tag of the element. -/
def isRaw : ContentType → Bool
  | cdata | rcdata => true
  | _ => false

end ContentType

end Markup
