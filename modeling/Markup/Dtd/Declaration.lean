import Markup.Dtd.Content
import Markup.Name

/-!
# Declarations of elements and entities

An element declaration gives the attributes, the content model and the exceptions of a tag: its
inclusions are admitted anywhere inside the element, its exclusions nowhere inside it, whatever a
content model or an inclusion would say. An entity declaration gives the text that a reference
stands for. Declarations are built in steps, each of which replaces one part.
-/

namespace Markup

/-! ## Elements -/

/-- The declaration of an element. -/
structure Element where
  /-- The tag name. -/
  name : Name
  /-- What the element may contain. -/
  content : ContentType
  /-- The declared attributes; `none` when no attribute was ever declared. -/
  attributes : Option NameSet
  /-- The children that the content model names. -/
  model : NameSet
  /-- Elements admitted anywhere inside this one. -/
  inclusions : NameSet
  /-- Elements admitted nowhere inside this one. -/
  exclusions : NameSet
  deriving DecidableEq

instance : Keyed Element := ⟨fun e => e.name.text⟩

/-- The part of a declaration in which another element is named. -/
inductive ReferenceRole where
  /-- The content model. -/
  | model
  /-- The inclusions. -/
  | inclusions
  /-- The exclusions. -/
  | exclusions
  deriving DecidableEq, Repr

/-- The role in words. -/
def ReferenceRole.name : ReferenceRole → String
  | .model => "content model"
  | .inclusions => "inclusions"
  | .exclusions => "exclusions"

namespace Element

/-- The word by which a content model admits text. -/
def pcdataToken : String := "#PCDATA"

/-- An element of which only the name and the content type are declared. -/
def ofName (name : String) (content : ContentType) : Element :=
  ⟨.declare name, content, none, .empty, .empty, .empty⟩

/-- Declares the attributes. -/
def withAttributes (e : Element) (names : List String) : Element :=
  { e with attributes := some (.declare names) }

/-- Declares the children. The word `#PCDATA` is not kept as a child; it turns the content type
`MODEL` into `MODEL_PCDATA`. -/
def withModel (e : Element) (names : List String) : Element :=
  let declared := NameSet.declare names
  { e with
    content :=
      if declared.contains pcdataToken ∧ e.content = .model then .modelPcdata else e.content
    model := declared.erase pcdataToken }

/-- Declares the inclusions. -/
def withInclusions (e : Element) (names : List String) : Element :=
  { e with inclusions := .declare names }

/-- Declares the exclusions. -/
def withExclusions (e : Element) (names : List String) : Element :=
  { e with exclusions := .declare names }

/-- Whether the content model admits a child of this name. -/
def accepts (e : Element) (child : Name) : Bool :=
  e.content.hasModel && e.model.has child

/-- Whether this name is a declared attribute. -/
def hasAttribute (e : Element) (name : Name) : Bool :=
  e.attributes.any (·.has name)

/-- Whether this name is an inclusion. -/
def includes (e : Element) (name : Name) : Bool :=
  e.inclusions.has name

/-- Whether this name is an exclusion. -/
def excludes (e : Element) (name : Name) : Bool :=
  e.exclusions.has name

/-- The elements that the declaration names, role by role and in order. -/
def references (e : Element) : List (ReferenceRole × Name) :=
  e.model.items.map (.model, ·) ++ e.inclusions.items.map (.inclusions, ·) ++
    e.exclusions.items.map (.exclusions, ·)

end Element

/-! ## Entities -/

/-- The declaration of an entity; unlike element names, entity names distinguish case. -/
structure Entity where
  /-- The name by which the entity is referred to. -/
  name : String
  /-- The text read in place of a reference. -/
  replacement : String
  deriving DecidableEq, Repr

instance : Keyed Entity := ⟨Entity.name⟩

/-- An entity that stands for a reference to the character of this number. -/
def Entity.character (name : String) (number : Nat) : Entity :=
  ⟨name, "&#" ++ toString number ++ ";"⟩

end Markup
