import Markup.OpenElements
import Markup.Trace

/-!
# The document so far

Between two characters a document consists of its open elements and the text that has been read
since the last tag. The text becomes an event when a tag follows it: it is *flushed*. Elements are
closed from the inside, each of them after the text before its end. Every operation gives the
document after it and the actions that are due, in order.
-/

namespace Markup

/-- The part of a document that later input can still change. -/
structure Document where
  /-- The elements that are open. -/
  elements : OpenElements
  /-- The text since the last flush. -/
  pending : String
  deriving DecidableEq

/-- A text without one line end at its end. -/
def dropLineEnd (text : String) : String :=
  if text.toList.getLast? = some '\n' then String.ofList text.toList.dropLast else text

namespace Document

/-- The document before its first character. -/
def start : Document := ⟨.none, ""⟩

/-- The document with text added. -/
def append (d : Document) (text : String) : Document :=
  { d with pending := d.pending ++ text }

/-! ## Text -/

/-- What becomes of a text that is flushed. Outside all elements blank text is dropped; inside an
element that holds no text all text is dropped, and text that is not blank is an issue. -/
def textActions (d : Document) (line : Nat) (content : ContentType) (text : String) :
    List Action :=
  if text = "" then []
  else
    match d.elements.current? with
    | none => if Text.allBlank text then [] else [.deliver (.characterData text false)]
    | some current =>
      if content.permitsText then [.deliver (.characterData text false)]
      else if Text.allBlank text then []
      else [.report ⟨.unexpectedText (Text.trim text) current.name, line⟩]

/-- Flushes the text as the content of an element of a given type; before an end tag it loses one
line end. -/
def flushAs (d : Document) (line : Nat) (content : ContentType) (beforeEnd : Bool) :
    Document × List Action :=
  let text := if beforeEnd then dropLineEnd d.pending else d.pending
  ({ d with pending := "" }, .checkpoint :: d.textActions line content text)

/-- Flushes the text as content of the innermost element. -/
def flush (d : Document) (line : Nat) (beforeEnd : Bool) : Document × List Action :=
  d.flushAs line d.elements.content beforeEnd

/-- Flushes the text and delivers a space that does not break, where text is permitted. -/
def space (d : Document) (line : Nat) : Document × List Action :=
  let (d, actions) := d.flush line false
  if d.elements.content.permitsText || d.elements.stack.isEmpty then
    (d, actions ++ [.deliver (.characterData " " true)])
  else (d, actions)

/-! ## Elements -/

/-- Flushes the text and begins an element. -/
def openElement (d : Document) (line : Nat) (e : Element) (attributes : Attributes) :
    Document × List Action :=
  let (d, actions) := d.flush line false
  ({ d with elements := d.elements.push e }, actions ++ [.deliver (.startTag e attributes)])

/-- Flushes the text and ends the innermost element. -/
def closeCurrent (d : Document) (line : Nat) : Document × List Action :=
  match d.elements.current? with
  | none => (d, [])
  | some e =>
    let (d, actions) := d.flush line true
    ({ d with elements := d.elements.pop }, actions ++ [.deliver (.endTag e)])

/-- Ends a number of elements from the inside, with what `remark` says of each before it. -/
def closeMany (remark : Element → List Action) (line : Nat) :
    Nat → Document → Document × List Action
  | 0, d => (d, [])
  | n + 1, d =>
    let remarks := (d.elements.current?.map remark).getD []
    let (d, actions) := d.closeCurrent line
    let (d, more) := closeMany remark line n d
    (d, remarks ++ actions ++ more)

/-- Ends the innermost element of a name and all elements inside it. -/
def closeElement (d : Document) (line : Nat) (name : Name) : Document × List Action :=
  match d.elements.closingsThrough? name with
  | some n => closeMany (fun _ => []) line n d
  | none => (d, [.report ⟨.unexpectedEndTag name, line⟩])

/-- The remark that an element ends because another one begins. -/
def impliedEndRemark (e closed : Element) : List Action :=
  [.note ("implicitly closing <" ++ closed.name.text ++ "> before <" ++ e.name.text ++ ">")]

/-- Makes room for an element: ends as few elements as will have it admitted. If none will do,
nothing is ended and the element is an issue. -/
def makeRoom (dtd : Dtd) (d : Document) (line : Nat) (e : Element) : Document × List Action :=
  if d.elements.admits dtd e then (d, [])
  else
    match d.elements.closingsFor? dtd e with
    | some n => closeMany (impliedEndRemark e) line n d
    | none =>
      (d, [.report ⟨.unexpectedElement e.name (d.elements.current?.map Element.name), line⟩])

/-- Ends all elements, flushes the text after them and ends the document. -/
def finish (d : Document) (line : Nat) : Document × List Action :=
  let (d, closing) := closeMany (fun _ => []) line d.elements.stack.length d
  let (d, actions) := d.flush line true
  (d, closing ++ actions ++ [.deliver .finished])

end Document

end Markup
