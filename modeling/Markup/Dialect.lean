/-!
# Dialects

A dialect settles what a document type leaves open: whether undeclared attributes are worth an
issue, what an end tag without a declared element does, which entity stands for a space that does
not break, and how deeply entities may nest.
-/

namespace Markup

/-- What happens to an attribute that its element does not declare. -/
inductive AttributeRule where
  /-- An issue is reported; the attribute is kept all the same. -/
  | declared
  /-- Nothing. -/
  | any
  deriving DecidableEq, Repr

/-- What happens to an end tag whose name is not declared. -/
inductive UnknownEndTagRule where
  /-- An issue is reported and the tag is dropped. -/
  | drop
  /-- Pending text is delivered, then the end of an element of that name with content `PCDATA`. -/
  | synthesize
  deriving DecidableEq, Repr

/-- The settings of a parse that do not come from the document type. -/
structure Dialect where
  /-- The treatment of undeclared attributes. -/
  attributes : AttributeRule
  /-- The treatment of end tags without a declared element. -/
  unknownEndTags : UnknownEndTagRule
  /-- The entity that stands for a space that does not break. -/
  spaceEntity : Option String
  /-- How many entities may be expanded inside each other. -/
  maxDepth : Nat
  deriving DecidableEq, Repr

namespace Dialect

/-- How many entities may be expanded inside each other when nothing else is said. -/
def defaultMaxDepth : Nat := 100

/-- Undeclared attributes are issues and unknown end tags are dropped. -/
def strict : Dialect := ⟨.declared, .drop, none, defaultMaxDepth⟩

/-- Any attribute is taken, unknown end tags are kept and `&nbsp;` is a space of its own. -/
def html : Dialect := ⟨.any, .synthesize, some "nbsp", defaultMaxDepth⟩

end Dialect

end Markup
