import Markup.CommandLine.Command
import Markup.CommandLine.FileTree
import Markup.CommandLine.Report
import Markup.Html.Dtd
import Markup.Writer

/-!
# Running commands

A command needs at most one file (`Command.path?`). Given what came of reading it, the command has
an answer: what it writes, and the status it ends with. Failures are told with their causes, from
the general to the particular.
-/

namespace Markup.CommandLine

/-! ## Failures -/

/-- Why a command gave no report. -/
inductive Failure where
  /-- A document could not be opened. -/
  | unopened (path : String) (fault : FileFault)
  /-- A file could not be read. -/
  | unread (path : String) (fault : FileFault)
  /-- A file does not hold text. -/
  | notText (path : String)
  /-- A document could not be parsed. -/
  | unparsed (place : DocumentPlace) (error : ParseError)
  /-- The built-in document type is not valid. -/
  | invalidDtd (fault : Dtd.Fault)
  deriving DecidableEq

namespace Failure

/-- What the command was about to do. -/
def context : Failure → String
  | unopened path _ => "failed to open " ++ path
  | unread path _ | notText path => "failed to read " ++ path
  | unparsed (.file path) _ => "failed to parse " ++ path
  | unparsed (.inline _) _ => "failed to parse --html input"
  | invalidDtd _ => "built-in HTML DTD is inconsistent"

/-- The causes, each the cause of the one before. -/
def causes : Failure → List String
  | unopened _ fault | unread _ fault => [fault.message]
  | notText _ => ["stream did not contain valid UTF-8"]
  | unparsed _ (.unreadable failure) => [(ParseError.unreadable failure).message, failure.message]
  | unparsed _ error => [error.message]
  | invalidDtd fault => [fault.message]

/-- The lines of the causes; several causes are numbered. -/
def causeLines : List String → List String
  | [cause] => ["    " ++ cause]
  | causes =>
    causes.zipIdx.map fun (cause, n) => filling 5 (toString n) ++ toString n ++ ": " ++ cause

/-- The wording of a failure. -/
def message (f : Failure) : String :=
  unlines (["Error: " ++ f.context, "", "Caused by:"] ++ causeLines f.causes)

end Failure

/-! ## Answers -/

/-- What a command writes and how it ends. -/
structure Answer where
  /-- The status. -/
  status : Nat
  /-- The standard output. -/
  output : String
  /-- The standard error output. -/
  errors : String
  deriving DecidableEq, Repr

/-- The status of a command line that is not well formed. -/
def usageStatus : Nat := 2

/-- The answer of a command that failed. -/
def Failure.answer (f : Failure) : Answer := ⟨1, "", f.message⟩

/-! ## Commands -/

namespace DocumentRequest

/-- The grammar by which the document is read. -/
def grammar (r : DocumentRequest) : Grammar :=
  ⟨Html.dtd, if r.strict then .strict else .html⟩

/-- The document; a file must have been opened. A folder can be opened, but its first read fails. -/
def source (r : DocumentRequest) (file : Except FileFault (List UInt8)) : Except Failure Source :=
  match r.place, file with
  | .inline text, _ => .ok (Source.ofText text)
  | .file _, .ok bytes => .ok (Source.ofBytes bytes)
  | .file _, .error .isDirectory =>
    .ok [.error (.interrupted .other FileFault.isDirectory.message)]
  | .file path, .error fault => .error (.unopened path fault)

/-- Parses the document for a listener. -/
def parse {α : Type} [Listener α] (r : DocumentRequest) (file : Except FileFault (List UInt8))
    (listener : α) : Except Failure (List α × List Issue) := do
  let source ← r.source file
  match (Session.start r.grammar [listener] false).parse source with
  | (session, .ok ()) => .ok (session.listeners, session.issues)
  | (_, .error error) => .error (.unparsed r.place error)

end DocumentRequest

/-- The text of a file. -/
def fileText (path : String) (file : Except FileFault (List UInt8)) : Except Failure String :=
  match file with
  | .error fault => .error (.unread path fault)
  | .ok bytes =>
    match (Text.Utf8.decodeAll bytes).mapM Except.toOption with
    | some text => .ok (String.ofList text)
    | none => .error (.notText path)

namespace Command

/-- The file that a command needs. -/
def path? : Command → Option String
  | events ⟨.file path, _⟩ _ | normalize ⟨.file path, _⟩ | lex _ _ path => some path
  | _ => none

/-- What a command writes, given what came of reading its file. -/
def report (file : Except FileFault (List UInt8)) : Command → Except Failure (String × String)
  | events request json => do
    let (listeners, issues) ← request.parse file Collector.empty
    let events := listeners.flatMap Collector.events
    .ok (if json then (jsonReport events issues, "") else (eventReport events, issueReport issues))
  | normalize request => do
    let (listeners, issues) ← request.parse file Writer.empty
    .ok (String.join (listeners.map Writer.output), issueReport issues)
  | lex language byLine path => do
    let text ← fileText path file
    let tokens :=
      if byLine then Lexis.tokenizeByLine language text else Lexis.tokenize language text
    .ok (tokenReport text tokens, "")
  | checkDtd =>
    match Html.dtd.validate with
    | .error fault => .error (.invalidDtd fault)
    | .ok () =>
      .ok
        ("HTML 3.2 DTD is valid: root <" ++ Html.dtd.root.text ++ ">, " ++
          toString Html.dtd.elements.size ++ " elements, " ++
          toString Html.dtd.entities.size ++ " entities\n", "")

/-- The answer of a command, given what came of reading its file. -/
def answer (command : Command) (file : Except FileFault (List UInt8)) : Answer :=
  match command.report file with
  | .ok (output, errors) => ⟨0, output, errors⟩
  | .error failure => failure.answer

end Command

end Markup.CommandLine
