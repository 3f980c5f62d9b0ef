import Markup.Dialect
import Markup.Document
import Markup.Reader.Mode
import Markup.Reader.Reference

/-!
# One step of the reader

A step looks at the next character of the input and decides, by the mode, whether the character is
taken, what it does to the document and which mode follows. A character that ends a construct
without belonging to it is left for the next step. Expansions are held while a reference in text is
read, so that a name that runs past the end of a replacement text still counts as inside it.
-/

namespace Markup

/-- What a document is read by. -/
structure Grammar where
  /-- The declared elements and entities. -/
  dtd : Dtd
  /-- The settings of the reader. -/
  dialect : Dialect
  deriving DecidableEq

namespace Reader

/-- The state of the reader between two steps. -/
structure State where
  /-- The characters to come. -/
  input : Input
  /-- What the next character belongs to. -/
  mode : Mode
  /-- The document so far. -/
  document : Document

/-- Where a step leads. -/
inductive Progress where
  /-- To the next step. -/
  | running (state : State)
  /-- To the end of reading. -/
  | stopped (outcome : Outcome)

/-- The actions of a step and where it leads. -/
abbrev Move := List Action × Progress

namespace State

/-- The state before the first character. -/
def start (g : Grammar) (source : Source) : State :=
  ⟨.ofSource source g.dialect.maxDepth, .text .content, .start⟩

/-- The state after the character that was looked at has been taken. -/
def take (s : State) : State :=
  { s with input := s.input.consume }

/-- The state with text added to the document. -/
def append (s : State) (text : String) : State :=
  { s with document := s.document.append text }

/-- Goes on in a mode. -/
def goto (s : State) (mode : Mode) : Move :=
  ([], .running { s with mode })

/-- Goes on in a mode after an operation on the document. -/
def change (s : State) (mode : Mode) (r : Document × List Action) : Move :=
  (r.2, .running { s with document := r.1, mode })

/-- Goes on in a mode after an issue. -/
def report (s : State) (cause : IssueCause) (mode : Mode) : Move :=
  ([.report ⟨cause, s.input.line⟩], .running { s with mode })

/-- Adds what a reference stands for and goes on after the reference. -/
def resume (s : State) (site : Site) (text : String) : Move :=
  match site with
  | .text place => (s.append text).goto (.text place)
  | .value value => s.goto (.value { value with text := value.text ++ text })

end State

/-! ## References -/

/-- Ends a numeric reference. One that denotes nothing is dropped. -/
def endNumeric (s : State) (site : Site) (hexadecimal : Bool) (digits : List Char) : Move :=
  match Reference.character? hexadecimal digits with
  | some c => s.resume site (String.singleton c)
  | none =>
    ([.note ("dropping character reference &#" ++ String.ofList digits ++ ";")],
      .running { s with mode := site.mode })

/-- Ends a reference to an entity in text: the replacement text is read next. A reference to an
entity that is not declared or not expanded becomes text. -/
def endTextEntity (g : Grammar) (s : State) (place : Place) (name : String) : Move :=
  if g.dialect.spaceEntity = some name then
    s.change (.text place) (s.document.space s.input.line)
  else
    match g.dtd.entity? name with
    | none => (s.append ("&" ++ name)).report (.undefinedEntity name) (.text place)
    | some entity =>
      match s.input.pushEntity name entity.replacement with
      | .ok input =>
        ([.note ("expanding entity &" ++ name ++ ";")],
          .running { s with input, mode := .text place })
      | .error refusal =>
        (s.append ("&" ++ name)).report (.unexpandedEntity name refusal) (.text place)

/-- What a reference to an entity stands for in the value of an attribute. There a reference to an
entity that is not declared is kept as written. -/
def entityInValue (g : Grammar) (name : String) (terminated : Bool) : String :=
  if g.dialect.spaceEntity = some name then " "
  else
    match g.dtd.entity? name with
    | some entity => String.ofList (Reference.replaceDecimal entity.replacement.toList)
    | none => "&" ++ name ++ if terminated then ";" else ""

/-- Ends a reference to an entity. -/
def endEntity (g : Grammar) (s : State) (site : Site) (name : String) (terminated : Bool) : Move :=
  match site with
  | .text place => endTextEntity g s place name
  | .value _ => s.resume site (entityInValue g name terminated)

/-! ## Tags -/

/-- Ends an end tag. -/
def endEndTag (g : Grammar) (s : State) (name : Name) : Move :=
  if g.dtd.declares name then
    s.change (.text .content) (s.document.closeElement s.input.line name)
  else
    match g.dialect.unknownEndTags with
    | .drop => s.report (.undefinedEndTag name) (.text .content)
    | .synthesize =>
      let (document, actions) := s.document.flushAs s.input.line .pcdata true
      s.change (.text .content)
        (document, actions ++ [.deliver (.endTag (.ofName name.text .pcdata))])

/-- Ends the name of a start tag: makes room for its element. -/
def endStartTagName (g : Grammar) (s : State) (name : Name) : Move :=
  match g.dtd.element? name with
  | none => s.report (.undefinedStartTag name) .startTagRest
  | some element =>
    s.change (.attributes ⟨element, .empty⟩) (s.document.makeRoom g.dtd s.input.line element)

/-- Ends an attribute. The last attribute of a name counts. -/
def endAttribute (g : Grammar) (s : State) (tag : Tag) (name : Name) (value : String) : Move :=
  let mode := .attributes { tag with attributes := tag.attributes.insert ⟨name.text, value⟩ }
  if g.dialect.attributes = .declared && !tag.element.hasAttribute name then
    s.report (.undefinedAttribute name tag.element.name) mode
  else s.goto mode

/-- Ends a start tag: its element begins, and an empty one ends again. -/
def endStartTag (s : State) (tag : Tag) : Move :=
  let line := s.input.line
  let (document, opening) := s.document.openElement line tag.element tag.attributes
  match tag.element.content with
  | .empty =>
    let (document, closing) := document.closeCurrent line
    s.change (.text .content) (document, opening ++ closing)
  | .cdata | .rcdata => s.change (.text (.raw tag.element)) (document, opening)
  | _ => s.change (.text .content) (document, opening)

/-- Ends raw text. -/
def endRaw (s : State) : Move :=
  s.change (.text .content) (s.document.closeCurrent s.input.line)

/-! ## Steps by mode -/

/-- A step in text. -/
def stepText (s : State) (place : Place) : Option Char → Move
  | none => ((s.document.finish s.input.line).2, .stopped .finished)
  | some c =>
    if c = '&' ∧ place.honoursReferences then s.take.goto (.reference (.text place))
    else if c = '<' then
      match place with
      | .content => s.take.goto .markup
      | .raw element => s.take.goto (.rawMarkup element)
    else if c = '\r' then s.take.goto (.textReturn place)
    else (s.take.append (String.singleton c)).goto (.text place)

/-- A step after a carriage return in text: with a line feed it makes one line end. -/
def stepTextReturn (s : State) (place : Place) (c? : Option Char) : Move :=
  let s := if c? = some '\n' then s.take else s
  (s.append "\n").goto (.text place)

/-- A step after `&`. -/
def stepReference (s : State) (site : Site) (c? : Option Char) : Move :=
  match c? with
  | some c =>
    if c = '#' then s.take.goto (.numericReference site)
    else if isNameStart c then s.take.goto (.entityName site (String.singleton c))
    else s.resume site "&"
  | none => s.resume site "&"

/-- A step after `&#`. -/
def stepNumericReference (s : State) (site : Site) (c? : Option Char) : Move :=
  if c? = some 'x' ∨ c? = some 'X' then s.take.goto (.digits site true [])
  else s.goto (.digits site false [])

/-- A step among the digits of a numeric reference. -/
def stepDigits (s : State) (site : Site) (hexadecimal : Bool) (digits : List Char)
    (c? : Option Char) : Move :=
  match c? with
  | some c =>
    if Reference.isDigitOf hexadecimal c then
      s.take.goto (.digits site hexadecimal (digits ++ [c]))
    else if c = ';' then endNumeric s.take site hexadecimal digits
    else endNumeric s site hexadecimal digits
  | none => endNumeric s site hexadecimal digits

/-- A step in the name of an entity. -/
def stepEntityName (g : Grammar) (s : State) (site : Site) (name : String) (c? : Option Char) :
    Move :=
  match c? with
  | some c =>
    if isNameChar c then s.take.goto (.entityName site (name.push c))
    else if c = ';' then endEntity g s.take site name true
    else endEntity g s site name false
  | none => endEntity g s site name false

/-- A step after `<`. -/
def stepMarkup (s : State) (c? : Option Char) : Move :=
  match c? with
  | some c =>
    if c = '/' then s.take.goto .endTag
    else if c = '!' then s.take.goto .declaration
    else if c = '?' then
      ([.checkpoint, .report ⟨.processingInstruction, s.take.input.line⟩],
        .running { s.take with mode := .skipped })
    else if isNameStart c then
      ([.checkpoint], .running { s.take with mode := .startTagName (String.singleton c) })
    else (s.append "<").goto (.text .content)
  | none => (s.append "<").goto (.text .content)

/-- A step after `</`. -/
def stepEndTag (s : State) (c? : Option Char) : Move :=
  match c? with
  | some c =>
    if isNameStart c then
      ([.checkpoint], .running { s.take with mode := .endTagName (String.singleton c) })
    else (s.append "</").goto (.text .content)
  | none => (s.append "</").goto (.text .content)

/-- A step in the name of an end tag. -/
def stepEndTagName (s : State) (name : String) (c? : Option Char) : Move :=
  match c? with
  | some c =>
    if isNameChar c then s.take.goto (.endTagName (name.push c))
    else s.goto (.endTagRest (.fold name))
  | none => s.goto (.endTagRest (.fold name))

/-- A step in the rest of a tag: `>` ends the tag, and so does a `<`, which is left for the next
tag. -/
def stepTagRest (s : State) (mode : Mode) (done : State → Move) (c? : Option Char) : Move :=
  match c? with
  | some c =>
    if c = '>' then done s.take
    else if c = '<' then done s
    else s.take.goto mode
  | none => done s

/-- A step after `<!` or `<!-`: a dash leads on, towards a comment. -/
def stepDeclaration (s : State) (dashed : Mode) (c? : Option Char) : Move :=
  if c? = some '-' then s.take.goto dashed else s.goto .skipped

/-- A step in a comment: it ends at the first `>` after two dashes or more. -/
def stepComment (s : State) (dashes : Nat) (c? : Option Char) : Move :=
  match c? with
  | some c =>
    if c = '-' then s.take.goto (.comment (dashes + 1))
    else if c = '>' ∧ 2 ≤ dashes then s.take.goto (.text .content)
    else s.take.goto (.comment 0)
  | none => s.goto (.text .content)

/-- A step in something that is skipped up to a `>`. -/
def stepSkipped (s : State) (c? : Option Char) : Move :=
  match c? with
  | some c => s.take.goto (if c = '>' then .text .content else .skipped)
  | none => s.goto (.text .content)

/-- A step in the name of a start tag. -/
def stepStartTagName (g : Grammar) (s : State) (name : String) (c? : Option Char) : Move :=
  match c? with
  | some c =>
    if isNameChar c then s.take.goto (.startTagName (name.push c))
    else endStartTagName g s (.fold name)
  | none => endStartTagName g s (.fold name)

/-- A step between attributes. A slash is passed over, as in `<BR/>`. -/
def stepAttributes (s : State) (tag : Tag) (c? : Option Char) : Move :=
  match c? with
  | some c =>
    if Text.isBlank c then s.take.goto (.attributes tag)
    else if c = '>' then endStartTag s.take tag
    else if c = '<' then endStartTag s tag
    else if c = '/' then s.take.goto (.attributes tag)
    else if isNameStart c then s.take.goto (.attributeName tag (String.singleton c))
    else s.take.report (.malformedAttribute c tag.element.name) (.attributes tag)
  | none => endStartTag s tag

/-- A step in the name of an attribute. -/
def stepAttributeName (s : State) (tag : Tag) (name : String) (c? : Option Char) : Move :=
  match c? with
  | some c =>
    if isNameChar c then s.take.goto (.attributeName tag (name.push c))
    else s.goto (.attributeNameEnd tag (.fold name))
  | none => s.goto (.attributeNameEnd tag (.fold name))

/-- A step after the name of an attribute. An attribute without `=` has an empty value. -/
def stepAttributeNameEnd (g : Grammar) (s : State) (tag : Tag) (name : Name) (c? : Option Char) :
    Move :=
  match c? with
  | some c =>
    if Text.isBlank c then s.take.goto (.attributeNameEnd tag name)
    else if c = '=' then s.take.goto (.valueStart tag name)
    else endAttribute g s tag name ""
  | none => endAttribute g s tag name ""

/-- A step after `=`. -/
def stepValueStart (s : State) (tag : Tag) (name : Name) (c? : Option Char) : Move :=
  match c? with
  | some c =>
    if Text.isBlank c then s.take.goto (.valueStart tag name)
    else if c = '"' ∨ c = '\'' then s.take.goto (.value ⟨tag, name, some c, ""⟩)
    else s.goto (.value ⟨tag, name, none, ""⟩)
  | none => s.goto (.value ⟨tag, name, none, ""⟩)

/-- A step in a value between quotation marks, in which a line end or a tab is a space. -/
def stepQuotedValue (g : Grammar) (s : State) (v : Value) (mark : Char) (c? : Option Char) : Move :=
  match c? with
  | some c =>
    if c = mark then endAttribute g s.take v.tag v.name v.text
    else if c = '&' then s.take.goto (.reference (.value v))
    else if c = '\r' then s.take.goto (.valueReturn v)
    else
      s.take.goto (.value { v with text := v.text.push (if c = '\n' ∨ c = '\t' then ' ' else c) })
  | none => endAttribute g s v.tag v.name v.text

/-- A step in a value without quotation marks, which a blank, `>` or `<` ends. -/
def stepBareValue (g : Grammar) (s : State) (v : Value) (c? : Option Char) : Move :=
  match c? with
  | some c =>
    if Text.isBlank c ∨ c = '>' ∨ c = '<' then endAttribute g s v.tag v.name v.text
    else if c = '&' then s.take.goto (.reference (.value v))
    else s.take.goto (.value { v with text := v.text.push c })
  | none => endAttribute g s v.tag v.name v.text

/-- A step in the value of an attribute. -/
def stepValue (g : Grammar) (s : State) (v : Value) (c? : Option Char) : Move :=
  match v.mark with
  | some mark => stepQuotedValue g s v mark c?
  | none => stepBareValue g s v c?

/-- A step after a carriage return in a value. -/
def stepValueReturn (s : State) (v : Value) (c? : Option Char) : Move :=
  let s := if c? = some '\n' then s.take else s
  s.goto (.value { v with text := v.text.push ' ' })

/-- A step after `<` in raw text. -/
def stepRawMarkup (s : State) (element : Element) (c? : Option Char) : Move :=
  if c? = some '/' then s.take.goto (.rawEndTag element element.name.text.toList "</")
  else (s.append "<").goto (.text (.raw element))

/-- A step in what may be the end tag of raw text. What turns out not to be one is text. -/
def stepRawEndTag (s : State) (element : Element) (expected : List Char) (seen : String)
    (c? : Option Char) : Move :=
  match expected, c? with
  | x :: expected, some c =>
    if c.toUpper = x.toUpper then s.take.goto (.rawEndTag element expected (seen.push c))
    else (s.append seen).goto (.text (.raw element))
  | _ :: _, none => (s.append seen).goto (.text (.raw element))
  | [], c? =>
    if c?.any isNameChar then (s.append seen).goto (.text (.raw element))
    else s.goto (.rawEndTagRest element)

/-- A step, given the character that comes next; `none` is the end of the input. -/
def stepOn (g : Grammar) (s : State) (c? : Option Char) : Move :=
  match s.mode with
  | .text place => stepText s place c?
  | .textReturn place => stepTextReturn s place c?
  | .reference site => stepReference s site c?
  | .numericReference site => stepNumericReference s site c?
  | .digits site hexadecimal digits => stepDigits s site hexadecimal digits c?
  | .entityName site name => stepEntityName g s site name c?
  | .markup => stepMarkup s c?
  | .endTag => stepEndTag s c?
  | .endTagName name => stepEndTagName s name c?
  | .endTagRest name => stepTagRest s (.endTagRest name) (endEndTag g · name) c?
  | .declaration => stepDeclaration s .declarationDash c?
  | .declarationDash => stepDeclaration s (.comment 0) c?
  | .comment dashes => stepComment s dashes c?
  | .skipped => stepSkipped s c?
  | .startTagName name => stepStartTagName g s name c?
  | .startTagRest => stepTagRest s .startTagRest (·.goto (.text .content)) c?
  | .attributes tag => stepAttributes s tag c?
  | .attributeName tag name => stepAttributeName s tag name c?
  | .attributeNameEnd tag name => stepAttributeNameEnd g s tag name c?
  | .valueStart tag name => stepValueStart s tag name c?
  | .value value => stepValue g s value c?
  | .valueReturn value => stepValueReturn s value c?
  | .rawMarkup element => stepRawMarkup s element c?
  | .rawEndTag element expected seen => stepRawEndTag s element expected seen c?
  | .rawEndTagRest element => stepTagRest s (.rawEndTagRest element) endRaw c?

/-- One step of the reader. -/
def step (g : Grammar) (s : State) : Move :=
  match (s.input.hold s.mode.isHeld).peek with
  | (.error failure, _) => ([], .stopped (.failed failure))
  | (.ok c?, input) => stepOn g { s with input } c?

end Reader

end Markup
