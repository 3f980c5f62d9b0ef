import Markup.CommandLine.Run

/-!
# The program

Reads the file that the command line asks for, runs the command and writes its answer.
-/

open Markup.CommandLine

/-- The bytes of a file, or what kept it from being read. -/
def readFile (path : String) : IO (Except FileFault (List UInt8)) := do
  try
    let bytes ← IO.FS.readBinFile path
    return .ok bytes.toList
  catch
    | .noFileOrDirectory .. => return .error .missing
    | .inappropriateType _ 21 _ => return .error .isDirectory
    | .inappropriateType .. => return .error .notDirectory
    | .invalidArgument .. => return .error .nameTooLong
    | error => return .error (.other (toString error))

/-- Runs the program on a command line. -/
def main (arguments : List String) : IO UInt32 := do
  match Command.ofArguments? arguments with
  | none =>
    (← IO.getStderr).putStrLn "commands: events, normalize, lex, check-dtd"
    return usageStatus.toUInt32
  | some command =>
    let file ←
      match command.path? with
      | some path => readFile path
      | none => pure (.error .missing)
    let answer := command.answer file
    (← IO.getStdout).putStr answer.output
    (← IO.getStderr).putStr answer.errors
    return answer.status.toUInt32
