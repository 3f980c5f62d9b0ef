import Markup.Listener
import Markup.Session

/-!
# Writing markup

A writer receives events and writes markup that reads as the same events: every tag is written,
attributes are quoted, and characters that markup gives a meaning are written as numeric
references. A line end right before an end tag is lost on reading, so one that belongs to the text
is written twice. To normalize a document is to parse it for a writer.
-/

namespace Markup

/-- The markup written so far. -/
structure Writer where
  /-- The markup. -/
  output : String
  /-- Text is written as it is, because the innermost element is raw. -/
  raw : Bool
  /-- The text written last ends with a line end. -/
  lineEndPending : Bool
  deriving DecidableEq, Repr

namespace Writer

/-- Nothing has been written. -/
def empty : Writer := ⟨"", false, false⟩

/-! ## Escaping -/

/-- How a character is written in text. A carriage return as it is would be read as a line
feed. -/
def escapeInText (c : Char) : String :=
  if c = '&' then "&#38;"
  else if c = '<' then "&#60;"
  else if c = '>' then "&#62;"
  else if c = '\r' then "&#13;"
  else String.singleton c

/-- How a character is written in the value of an attribute. Line ends and tabs as they are would
be read as spaces. -/
def escapeInValue (c : Char) : String :=
  if c = '&' then "&#38;"
  else if c = '"' then "&#34;"
  else if c = '\n' then "&#10;"
  else if c = '\r' then "&#13;"
  else if c = '\t' then "&#9;"
  else String.singleton c

/-- A text with every character escaped. -/
def escape (form : Char → String) (text : String) : String :=
  text.toList.foldl (fun out c => out ++ form c) ""

/-- An attribute with a blank before it. -/
def attributeMarkup (a : Attribute) : String :=
  " " ++ a.name ++ "=\"" ++ escape escapeInValue a.value ++ "\""

/-! ## Events -/

/-- The writer with a line end written once more, if one is pending. -/
def settleLineEnd (w : Writer) : Writer :=
  { w with
    output := if w.lineEndPending then w.output ++ "\n" else w.output
    lineEndPending := false }

/-- Writes a start tag. -/
def startTag (w : Writer) (element : Element) (attributes : Attributes) : Writer where
  output :=
    w.output ++ "<" ++ element.name.text ++
      String.join (attributes.items.map attributeMarkup) ++ ">"
  raw := element.content == .cdata
  lineEndPending := false

/-- Writes an end tag; an empty element has none. -/
def endTag (w : Writer) (element : Element) : Writer :=
  let w := { w.settleLineEnd with raw := false }
  if element.content = .empty then w
  else { w with output := w.output ++ "</" ++ element.name.text ++ ">" }

/-- Writes text. -/
def characterData (w : Writer) (text : String) (nonBreaking : Bool) : Writer :=
  if nonBreaking then { w with output := w.output ++ "&nbsp;", lineEndPending := false }
  else
    { w with
      output := w.output ++ if w.raw then text else escape escapeInText text
      lineEndPending := text.toList.getLast? == some '\n' }

/-- Writes an event as one of a kind. What is expected to be a tag or text and is not leaves the
writer as it is; whatever is expected to end the document settles the line end. -/
def writeAs (w : Writer) : EventKind → Event → Writer
  | .startTag, .startTag element attributes => w.startTag element attributes
  | .endTag, .endTag element => w.endTag element
  | .characterData, .characterData text nonBreaking => w.characterData text nonBreaking
  | .finished, _ => w.settleLineEnd
  | _, _ => w

/-- Writes an event. -/
def write (w : Writer) (event : Event) : Writer :=
  w.writeAs event.kind event

instance : Listener Writer where
  receive w event := (w.write event, .proceed)

/-- The markup of a list of events. -/
def markup (events : List Event) : String :=
  (events.foldl write empty).output

end Writer

/-- Parses a document for a writer: what was written, the issues and whether the parse reached the
end of the document. -/
def normalize (g : Grammar) (source : Source) : String × List Issue × Except ParseError Unit :=
  let (session, result) := (Session.start g [Writer.empty] false).parse source
  (String.join (session.listeners.map Writer.output), session.issues, result)

end Markup
