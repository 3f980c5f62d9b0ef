import Markup.Text.Bytes

/-!
# Tokens of program text

An editor colours program text by the kind of its tokens. Comments and literals may run on over
several lines, so what is left open at the end of a line is part of the lexing state of the next
one.
-/

namespace Markup.Lexis

/-- The kind of a token. -/
inductive TokenKind where
  /-- The range has no further token. -/
  | endOfInput
  /-- A reserved word or a reserved sign. -/
  | keyword
  /-- An identifier, a number or punctuation. -/
  | token
  /-- A literal. -/
  | constant
  /-- A literal that is open at the end of the range. -/
  | openConstant
  /-- A comment. -/
  | comment
  /-- A comment that is open at the end of the range. -/
  | openComment
  deriving DecidableEq, Repr

/-- The written form of a kind. -/
def TokenKind.name : TokenKind → String
  | endOfInput => "end_of_input"
  | keyword => "keyword"
  | token => "token"
  | constant => "constant"
  | openConstant => "multi_line_constant"
  | comment => "comment"
  | openComment => "multi_line_comment"

/-- A range of a text and its kind; offsets count bytes from the start of the text. -/
structure Token where
  /-- The kind of the token. -/
  kind : TokenKind
  /-- Where the first character begins. -/
  start : Nat
  /-- Where the last character ends. -/
  stop : Nat
  deriving DecidableEq, Repr

namespace Token

/-- The characters of a token within those of the text that it was found in. -/
def characters (t : Token) (source : List Char) : List Char :=
  Text.slice source t.start t.stop

/-- The text of a token within the text that it was found in. -/
def text (t : Token) (source : String) : String :=
  String.ofList (t.characters source.toList)

/-- The number of bytes of a token, unless its ends are reversed. -/
def length? (t : Token) : Option Nat :=
  if t.start ≤ t.stop then some (t.stop - t.start) else none

/-- Whether a token has no characters. -/
def isEmpty (t : Token) : Bool :=
  t.start == t.stop

end Token

/-- What is open where a range begins. -/
structure LexState where
  /-- A literal is open. -/
  inConstant : Bool
  /-- A comment is open. -/
  inComment : Bool
  deriving DecidableEq, Repr

namespace LexState

/-- Nothing is open. -/
def initial : LexState := ⟨false, false⟩

/-- The state after a token of a kind: literals and comments say themselves whether they are
open. -/
def after (s : LexState) : TokenKind → LexState
  | .constant => { s with inConstant := false }
  | .openConstant => { s with inConstant := true }
  | .comment => { s with inComment := false }
  | .openComment => { s with inComment := true }
  | _ => s

end LexState

/-- The kind of a literal that has an end or has none. -/
def constantKind (closed : Bool) : TokenKind :=
  if closed then .constant else .openConstant

/-- The kind of a comment that has an end or has none. -/
def commentKind (closed : Bool) : TokenKind :=
  if closed then .comment else .openComment

end Markup.Lexis
