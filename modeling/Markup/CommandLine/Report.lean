import Markup.CommandLine.Style
import Markup.Event
import Markup.Issue
import Markup.Lexis.Basic
import Markup.Text.Json
import Markup.Text.Quoted

/-!
# Reports

What the commands show: events as an indented outline, issues as a list, both together as JSON, and
tokens as a table. Every line of a report ends with a line feed.
-/

namespace Markup.CommandLine

open Lexis

/-- Lines, each with its line feed. -/
def unlines (lines : List String) : String :=
  String.join (lines.map (· ++ "\n"))

/-- The heading of a report with a number of items. -/
def heading (title : String) (count : Nat) : String :=
  "=== " ++ title ++ " (" ++ toString count ++ ") ==="

/-! ## Events -/

/-- The style of an event. -/
def eventStyle : Event → Style
  | .startTag .. => .green
  | .endTag _ => .blue
  | .characterData _ true => .cyan
  | .characterData _ false => .plain
  | .finished => .dimmed

/-- An event at a depth. -/
def eventLine (depth : Nat) (event : Event) : String :=
  String.join (List.replicate depth "  ") ++ (eventStyle event).paint event.describe

/-- The lines of events of which the first stands at a depth: an end tag stands at the depth of its
start tag, and what is between them one deeper. -/
def eventLines : Nat → List Event → List String
  | _, [] => []
  | depth, event :: events =>
    match event with
    | .startTag .. => eventLine depth event :: eventLines (depth + 1) events
    | .endTag _ => eventLine (depth - 1) event :: eventLines (depth - 1) events
    | _ => eventLine depth event :: eventLines depth events

/-- The outline of events. -/
def eventReport (events : List Event) : String :=
  unlines (heading "Events" events.length :: eventLines 0 events)

/-! ## Issues -/

/-- An issue with its kind. -/
def issueLine (issue : Issue) : String :=
  "  - " ++ Style.yellow.paint issue.describe ++ " " ++
    Style.dimmed.paint ("[" ++ issue.cause.kind ++ "]")

/-- The list of issues after a blank line; nothing when there are none. -/
def issueReport (issues : List Issue) : String :=
  if issues.isEmpty then ""
  else unlines ("" :: heading "Parse Issues" issues.length :: issues.map issueLine)

/-! ## JSON -/

open Text (Json)

/-- An event as JSON. -/
def eventJson (event : Event) : Json :=
  .object (("kind", .string event.kind.name) ::
    match event with
    | .startTag element attributes =>
      [("element", .string element.name.text),
        ("attributes", .object (attributes.items.map fun a => (a.name, .string a.value)))]
    | .endTag element => [("element", .string element.name.text)]
    | .characterData text nonBreaking =>
      ("text", .string text) :: if nonBreaking then [("non_breaking", .boolean true)] else []
    | .finished => [])

/-- An issue as JSON. -/
def issueJson (issue : Issue) : Json :=
  .object
    [("kind", .string issue.cause.kind), ("line", .number issue.line),
      ("message", .string issue.cause.message)]

/-- Events and issues as JSON. -/
def jsonReport (events : List Event) (issues : List Issue) : String :=
  unlines [Json.pretty (.object
    [("events", .list (events.map eventJson)), ("issues", .list (issues.map issueJson))])]

/-! ## Tokens -/

/-- Blanks that fill a text up to a width. -/
def filling (width : Nat) (text : String) : String :=
  "".pushn ' ' (width - text.length)

/-- The styles of the kind and of the text of a token. -/
def tokenStyles : TokenKind → Style × Style
  | .keyword => (.magenta, .bold)
  | .constant | .openConstant => (.green, .green)
  | .comment | .openComment => (.dimmed, .dimmed)
  | .token | .endOfInput => (.plain, .plain)

/-- A token of a text: its range, its kind and its characters in three columns. -/
def tokenLine (source : List Char) (token : Token) : String :=
  let start := toString token.start
  let stop := toString token.stop
  let kind := token.kind.name
  let (kindStyle, textStyle) := tokenStyles token.kind
  filling 6 start ++ start ++ ".." ++ stop ++ filling 6 stop ++ " " ++
    kindStyle.paint (kind ++ filling 20 kind) ++ " " ++
    textStyle.paint (Text.quote (String.ofList (token.characters source)))

/-- The table of the tokens of a text. -/
def tokenReport (source : String) (tokens : List Token) : String :=
  unlines (heading "Tokens" tokens.length :: tokens.map (tokenLine source.toList))

end Markup.CommandLine
