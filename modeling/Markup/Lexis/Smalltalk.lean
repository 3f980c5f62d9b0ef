import Markup.Lexis.Basic
import Markup.Text.Letter

/-!
# Smalltalk

Comments stand between double quotation marks and strings between single ones, within which the
mark is written twice. Both may run over several lines. Symbols begin with `#` and character
literals with `$`.
-/

namespace Markup.Lexis.Smalltalk

/-- The names that have a fixed meaning. -/
def pseudoVariables : List String := ["self", "super", "true", "false", "nil"]

/-- Whether a character belongs to a binary selector. -/
def isSelectorChar (c : Char) : Bool :=
  "+-*/\\<>=~@%|&?,".toList.contains c

/-- Whether a character goes on with a keyword symbol such as `#at:put:`. -/
def isSymbolChar (c : Char) : Bool :=
  Text.isLetterOrNumeral c || c == ':' || c == '_'

/-! ## Lengths of tokens -/

/-- The length of a comment up to and including its mark, and whether that is there. -/
def commentBody : List Char → Nat × Bool
  | [] => (0, false)
  | '"' :: _ => (1, true)
  | _ :: rest =>
    let (n, closed) := commentBody rest
    (n + 1, closed)

/-- The length of a string up to and including its mark, and whether that is there. Two marks in a
row stand for one character of the string. -/
def stringBody : List Char → Nat × Bool
  | [] => (0, false)
  | '\'' :: '\'' :: rest =>
    let (n, closed) := stringBody rest
    (n + 2, closed)
  | '\'' :: _ => (1, true)
  | _ :: rest =>
    let (n, closed) := stringBody rest
    (n + 1, closed)

section

variable {c : Char} {us : List Char}

/-- A character that is no mark belongs to the comment. -/
theorem commentBody_cons (h : c ≠ '"') (us : List Char) :
    commentBody (c :: us) = ((commentBody us).1 + 1, (commentBody us).2) := by
  rw [commentBody.eq_3]
  exact h

/-- A character that is no mark belongs to the string. -/
theorem stringBody_cons (h : c ≠ '\'') (us : List Char) :
    stringBody (c :: us) = ((stringBody us).1 + 1, (stringBody us).2) := by
  rw [stringBody.eq_4]
  · exact fun _ hc _ => h hc
  · exact h

/-- A mark without another one ends a string. -/
theorem stringBody_mark (h : us.head? ≠ some '\'') : stringBody ('\'' :: us) = (1, true) := by
  rw [stringBody.eq_3]
  rintro rest rfl
  exact h rfl

/-- Two marks belong to the string. -/
theorem stringBody_pair (us : List Char) :
    stringBody ('\'' :: '\'' :: us) = ((stringBody us).1 + 2, (stringBody us).2) :=
  rfl

end

/-- The length of a number such as `42`, `16r1F` or `3.14`. A point belongs to the number only
when a digit follows it. -/
def numberLength : List Char → Nat
  | [] => 0
  | c :: rest =>
    if c.isAlphanum ∨ (c = '.' ∧ rest.head?.any Char.isDigit) then numberLength rest + 1 else 0

/-- The length and the kind of what follows `#`; on its own the sign is punctuation. -/
def symbolBody (cs : List Char) : Nat × TokenKind :=
  match cs with
  | [] => (0, .token)
  | c :: rest =>
    if c = '\'' then
      let (n, closed) := stringBody rest
      (n + 1, constantKind closed)
    else if Text.isLetter c then ((cs.takeWhile isSymbolChar).length, .constant)
    else if isSelectorChar c then ((cs.takeWhile isSelectorChar).length, .constant)
    else (0, .token)

/-- The kind of an identifier. -/
def wordKind (word : List Char) : TokenKind :=
  if pseudoVariables.contains (String.ofList word) then .keyword else .token

/-- The length and the kind of the first token. -/
def scan : List Char → Nat × TokenKind
  | [] => (0, .endOfInput)
  | c :: rest =>
    if c = '"' then
      let (n, closed) := commentBody rest
      (n + 1, commentKind closed)
    else if c = '\'' then
      let (n, closed) := stringBody rest
      (n + 1, constantKind closed)
    else if c = '#' then
      let (n, kind) := symbolBody rest
      (n + 1, kind)
    else if c = '$' ∧ rest ≠ [] then (2, .constant)
    else if c = '^' ∨ c = '_' then (1, .keyword)
    else if c = ':' ∧ rest.head? = some '=' then (2, .keyword)
    else if Text.isLetter c then
      let word := (c :: rest).takeWhile Text.isLetterOrNumeral
      (word.length, wordKind word)
    else if c.isDigit then (numberLength (c :: rest), .token)
    else (1, .token)

/-! ## Progress -/

/-- A comment that is not at the end takes a character. -/
theorem commentBody_pos {cs : List Char} (h : cs ≠ []) : 0 < (commentBody cs).1 := by
  unfold commentBody
  split <;> simp_all

/-- A string that is not at the end takes a character. -/
theorem stringBody_pos {cs : List Char} (h : cs ≠ []) : 0 < (stringBody cs).1 := by
  unfold stringBody
  split <;> simp_all

/-- Every token takes a character. -/
theorem scan_pos {cs : List Char} (h : cs ≠ []) : 0 < (scan cs).1 := by
  cases cs with
  | nil => exact absurd rfl h
  | cons c rest =>
    simp only [scan]
    repeat' split
    all_goals first
      | simp; done
      | (rename_i hc; simp [Text.isLetterOrNumeral, hc]; done)
      | (rename_i hc; simp [numberLength, Char.isAlphanum, hc])

end Markup.Lexis.Smalltalk
