/-!
# The log

Warnings tend to repeat within a document, so each message is written once; after `Log.clear` the
messages count as new. Remarks for debugging are written every time.
-/

namespace Markup

/-- How serious a line of the log is. -/
inductive LogLevel where
  /-- A recoverable problem. -/
  | warning
  /-- A remark for debugging. -/
  | debug
  deriving DecidableEq, Repr

/-- The written form of a level. -/
def LogLevel.name : LogLevel → String
  | .warning => "WARN"
  | .debug => "DEBUG"

/-- A line of the log. -/
structure LogLine where
  /-- How serious the line is. -/
  level : LogLevel
  /-- The text of the line. -/
  text : String
  deriving DecidableEq, Repr

/-- The lines written so far, and the warnings that are not written again. -/
structure Log where
  /-- The lines, the last one first. -/
  written : List LogLine
  /-- The warnings written since the last clearing. -/
  warned : List String
  deriving DecidableEq, Repr

namespace Log

/-- Nothing has been written. -/
def empty : Log := ⟨[], []⟩

/-- The lines in the order in which they were written. -/
def lines (log : Log) : List LogLine :=
  log.written.reverse

/-- The name under which the lines of the log are filed. -/
def target : String := "quire"

/-- Lets all warnings be written again. -/
def clear (log : Log) : Log :=
  { log with warned := [] }

/-- The text of a warning from a component. -/
def warningText (component message : String) : String :=
  "[" ++ component ++ "] " ++ message

/-- Writes a warning unless it has been written already, and says whether it was. -/
def warnOnce (log : Log) (component message : String) : Log × Bool :=
  let text := warningText component message
  if text ∈ log.warned then (log, false)
  else (⟨⟨.warning, text⟩ :: log.written, text :: log.warned⟩, true)

/-- Writes a remark. -/
def debug (log : Log) (remark : String) : Log :=
  { log with written := ⟨.debug, remark⟩ :: log.written }

end Log

end Markup
