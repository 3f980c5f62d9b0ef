import Markup.CommandLine.Arguments
import Markup.Lexis.Tokenizer

/-!
# Commands

A command line names a command, and the options and operands after the name say what it works on.
A command line that is not well formed has no command (`Command.ofArguments?`).
-/

namespace Markup.CommandLine

/-- Where a document is taken from. -/
inductive DocumentPlace where
  /-- A file. -/
  | file (path : String)
  /-- The command line. -/
  | inline (text : String)
  deriving DecidableEq, Repr

/-- A document and the way in which it is read. -/
structure DocumentRequest where
  /-- Where the document is taken from. -/
  place : DocumentPlace
  /-- Whether it is read in the strict dialect. -/
  strict : Bool
  deriving DecidableEq, Repr

/-- What the program is asked to do. -/
inductive Command where
  /-- Shows the events of a document, as lines or as JSON. -/
  | events (request : DocumentRequest) (json : Bool)
  /-- Writes a document with all its tags. -/
  | normalize (request : DocumentRequest)
  /-- Shows the tokens of a file. -/
  | lex (language : Lexis.Language) (byLine : Bool) (path : String)
  /-- Validates the built-in document type. -/
  | checkDtd
  deriving DecidableEq

namespace Command

/-! ## Options -/

/-- An option without a value. -/
def switch (name : String) : OptionForm := ⟨name, none, false⟩

/-- An option that is accepted before and after the name of a command. Colours are written all the
same. -/
def noColor : OptionForm := switch "no-color"

/-- The options of the commands that read a document. -/
def documentForms : List OptionForm :=
  [⟨"html", none, true⟩, switch "strict", noColor]

/-- The options of `lex`. -/
def lexForms : List OptionForm :=
  [⟨"language", some 'l', true⟩, switch "by-line", noColor]

/-! ## Reading a command line -/

/-- The document that is asked for: a file or a text, and not both. -/
def documentRequest? (a : Arguments) : Option DocumentRequest :=
  match a.operands, a.value? "html" with
  | [path], none => if path = "" then none else some ⟨.file path, a.has "strict"⟩
  | [], some text => some ⟨.inline text, a.has "strict"⟩
  | _, _ => none

/-- The file that is asked for. -/
def lex? (a : Arguments) : Option Command :=
  match a.operands, (a.value? "language").bind Lexis.Language.ofName? with
  | [path], some language => if path = "" then none else some (lex language (a.has "by-line") path)
  | _, _ => none

/-- The command of a name and of the words after it. -/
def ofWords? (name : String) (words : List String) : Option Command :=
  let read? (forms : List OptionForm) := (Arguments.read? forms words).filter (·.givesOnce)
  match name with
  | "events" =>
    (read? (switch "json" :: documentForms)).bind fun a =>
      (documentRequest? a).map (events · (a.has "json"))
  | "normalize" => (read? documentForms).bind fun a => (documentRequest? a).map normalize
  | "lex" => (read? lexForms).bind lex?
  | "check-dtd" =>
    (read? [noColor]).bind fun a => if a.operands.isEmpty then some checkDtd else none
  | _ => none

/-- The command of a command line. The name may follow one `--no-color`. -/
def ofArguments? : List String → Option Command
  | "--no-color" :: name :: words => ofWords? name words
  | name :: words => ofWords? name words
  | [] => none

end Command

end Markup.CommandLine
