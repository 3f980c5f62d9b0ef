import Markup.Input.Basic
import Markup.Name
import Markup.Text.Quoted

/-!
# Issues

A problem in a document that reading can go on after is recorded as an issue: its cause, and the
line of the caller's source that had been reached.
-/

namespace Markup

/-- What is wrong in a document. -/
inductive IssueCause where
  /-- A start tag names no declared element. -/
  | undefinedStartTag (name : Name)
  /-- An end tag names no declared element. -/
  | undefinedEndTag (name : Name)
  /-- An attribute is not declared on its element. -/
  | undefinedAttribute (name element : Name)
  /-- A reference names no declared entity. -/
  | undefinedEntity (name : String)
  /-- A start tag holds a character that belongs to no attribute. -/
  | malformedAttribute (character : Char) (element : Name)
  /-- An end tag names an element that is not open. -/
  | unexpectedEndTag (name : Name)
  /-- No open element admits the element of a start tag; `context` is the innermost one. -/
  | unexpectedElement (name : Name) (context : Option Name)
  /-- Text stands in an element that holds only elements. -/
  | unexpectedText (text : String) (element : Name)
  /-- A processing instruction was skipped. -/
  | processingInstruction
  /-- A reference to an entity was not expanded. -/
  | unexpandedEntity (name : String) (refusal : Refusal)
  deriving DecidableEq

/-- The kind of a cause. -/
def IssueCause.kind : IssueCause → String
  | undefinedStartTag _ | undefinedEndTag _ => "UndefinedElement"
  | undefinedAttribute .. => "UndefinedAttribute"
  | undefinedEntity _ => "UndefinedEntity"
  | malformedAttribute .. => "MalformedAttribute"
  | unexpectedEndTag _ => "UnexpectedEndTag"
  | unexpectedElement .. => "UnexpectedElement"
  | unexpectedText .. => "UnexpectedText"
  | processingInstruction => "ProcessingInstruction"
  | unexpandedEntity .. => "EntityDepthExceeded"

/-- The wording of a cause. -/
def IssueCause.message : IssueCause → String
  | undefinedStartTag name => "undefined element <" ++ name.text ++ ">"
  | undefinedEndTag name => "undefined element </" ++ name.text ++ ">"
  | undefinedAttribute name element =>
    "undefined attribute " ++ name.text ++ " on <" ++ element.text ++ ">"
  | undefinedEntity name => "undefined entity &" ++ name ++ ";"
  | malformedAttribute c element =>
    "unexpected character " ++ Text.quoteChar c ++ " in <" ++ element.text ++ "> tag"
  | unexpectedEndTag name => "end tag </" ++ name.text ++ "> does not match an open element"
  | unexpectedElement name context =>
    "<" ++ name.text ++ "> is not allowed in <" ++ (context.map Name.text).getD "" ++ ">"
  | unexpectedText text element =>
    "text " ++ Text.quote text ++ " is not allowed in <" ++ element.text ++ ">"
  | processingInstruction => "processing instructions are not supported"
  | unexpandedEntity name refusal =>
    "entity &" ++ name ++ "; not expanded: " ++ refusal.message

/-- A recoverable problem. -/
structure Issue where
  /-- What is wrong. -/
  cause : IssueCause
  /-- The line that had been reached, counted from one. -/
  line : Nat
  deriving DecidableEq

/-- The issue on one line. -/
def Issue.describe (issue : Issue) : String :=
  "line " ++ toString issue.line ++ ": " ++ issue.cause.message

end Markup
