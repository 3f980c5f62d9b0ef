import Markup.Text.Utf8

/-!
# Sources of characters

A source is what the caller hands in: a list of reads, each of which gives a character or fails.
Reading may go on after a failure, and after the last read the source is at its end for good.
-/

namespace Markup

/-- The kind of a read failure. -/
inductive FailureKind where
  /-- The data has no valid form. -/
  | invalidData
  /-- The data ended too early. -/
  | unexpectedEnd
  /-- The data took too long. -/
  | timedOut
  /-- Any other cause. -/
  | other
  deriving DecidableEq, Repr

/-- Why a read gave no character. -/
inductive ReadFailure where
  /-- The bytes are not UTF-8. -/
  | undecodable (fault : Text.Utf8.Fault)
  /-- The supplier of the characters failed. -/
  | interrupted (kind : FailureKind) (message : String)
  deriving DecidableEq, Repr

/-- The kind of a failure. -/
def ReadFailure.kind : ReadFailure → FailureKind
  | undecodable _ => .invalidData
  | interrupted kind _ => kind

/-- The wording of a failure. -/
def ReadFailure.message : ReadFailure → String
  | undecodable fault => fault.message
  | interrupted _ message => message

/-- The reads of a source in order. -/
abbrev Source := List (Except ReadFailure Char)

namespace Source

/-- The characters of a text, without a failure. -/
def ofText (text : String) : Source :=
  text.toList.map .ok

/-- The characters that bytes stand for. -/
def ofBytes (bytes : List UInt8) : Source :=
  (Text.Utf8.decodeAll bytes).map fun
    | .ok c => .ok c
    | .error fault => .error (.undecodable fault)

/-- The source with one failing read put before the read of number `n`. The read past the last
character counts; there is none after it. -/
def failingAt (source : Source) (n : Nat) (failure : ReadFailure) : Source :=
  if n ≤ source.length then source.take n ++ .error failure :: source.drop n else source

end Source

end Markup
