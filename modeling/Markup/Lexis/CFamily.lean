import Markup.Lexis.Basic
import Markup.Text.Blank
import Markup.Text.Letter

/-!
# The C family

Java, C and C++ differ in their reserved words and in whether `//` begins a comment. The rules of
this module say of a list of characters how many of them belong to the first token, and of a
comment or a literal also whether it has its end among them.
-/

namespace Markup.Lexis

/-- A member of the C family. -/
inductive CDialect where
  /-- Java. -/
  | java
  /-- C, in which `//` begins no comment. -/
  | ansiC
  /-- C++. -/
  | cpp
  deriving DecidableEq, Repr

namespace CDialect

/-- The written form of a dialect. -/
def name : CDialect → String
  | java => "java"
  | ansiC => "c"
  | cpp => "cpp"

/-- The dialect written as `text`. -/
def ofName? (text : String) : Option CDialect :=
  [java, ansiC, cpp].find? (·.name = text)

/-- Whether `//` begins a comment. -/
def hasLineComments : CDialect → Bool
  | ansiC => false
  | _ => true

/-! ## Reserved words -/

/-- The reserved words of Java. -/
def javaKeywords : List String := [
  "abstract", "assert", "boolean", "break", "byte", "case", "catch", "char", "class", "const",
  "continue", "default", "do", "double", "else", "enum", "extends", "false", "final", "finally",
  "float", "for", "goto", "if", "implements", "import", "instanceof", "int", "interface", "long",
  "native", "new", "null", "package", "private", "protected", "public", "return", "short",
  "static", "strictfp", "super", "switch", "synchronized", "this", "throw", "throws", "transient",
  "true", "try", "void", "volatile", "while"]

/-- The reserved words of C. -/
def cKeywords : List String := [
  "auto", "break", "case", "char", "const", "continue", "default", "do", "double", "else", "enum",
  "extern", "float", "for", "goto", "if", "inline", "int", "long", "register", "restrict",
  "return", "short", "signed", "sizeof", "static", "struct", "switch", "typedef", "union",
  "unsigned", "void", "volatile", "while"]

/-- The reserved words that C++ adds to those of C, as far as they consist of small letters. -/
def cppKeywords : List String := [
  "asm", "bool", "catch", "class", "delete", "explicit", "export", "false", "friend", "mutable",
  "namespace", "new", "nullptr", "operator", "private", "protected", "public", "template", "this",
  "throw", "true", "try", "typeid", "typename", "using", "virtual"]

/-- Whether a word is reserved. -/
def isKeyword (dialect : CDialect) (word : String) : Bool :=
  match dialect with
  | java => javaKeywords.contains word
  | ansiC => cKeywords.contains word
  | cpp => cKeywords.contains word || cppKeywords.contains word

/-! ## Characters -/

/-- Whether a character begins an identifier. -/
def isIdentifierStart (c : Char) : Bool :=
  Text.isLetter c || c == '_' || c == '$'

/-- Whether a character goes on with an identifier. -/
def isIdentifierChar (c : Char) : Bool :=
  Text.isLetterOrNumeral c || c == '_' || c == '$'

/-- Whether a character goes on with a number: digits, the letters of radix, exponent and suffix,
points and underscores. -/
def isNumberChar (c : Char) : Bool :=
  c.isAlphanum || c == '.' || c == '_'

/-- Whether a character ends a line. -/
def isLineEnd (c : Char) : Bool :=
  c == '\n' || c == '\r'

/-! ## Lengths of tokens -/

/-- The length of a comment up to and including `*/`, and whether that is there. -/
def commentBody : List Char → Nat × Bool
  | [] => (0, false)
  | '*' :: '/' :: _ => (2, true)
  | _ :: rest =>
    let (n, closed) := commentBody rest
    (n + 1, closed)

/-- The length of a literal up to and including its mark, or up to the end of its line, and
whether it ends. A backslash takes the next character with it, a line end included, and of a
carriage return with a line feed both. -/
def literalBody (mark : Char) : List Char → Nat × Bool
  | [] => (0, false)
  | '\\' :: '\r' :: '\n' :: rest =>
    let (n, closed) := literalBody mark rest
    (n + 3, closed)
  | '\\' :: _ :: rest =>
    let (n, closed) := literalBody mark rest
    (n + 2, closed)
  | ['\\'] => (1, false)
  | c :: rest =>
    if c = mark then (1, true)
    else if isLineEnd c then (0, true)
    else
      let (n, closed) := literalBody mark rest
      (n + 1, closed)

section

variable {c mark : Char} {us : List Char}

/-- A character that does not begin the end of a comment belongs to the comment. -/
theorem commentBody_cons (h : ¬(c = '*' ∧ us.head? = some '/')) :
    commentBody (c :: us) = ((commentBody us).1 + 1, (commentBody us).2) := by
  rw [commentBody.eq_3]
  rintro rest rfl rfl
  exact h ⟨rfl, rfl⟩

/-- A character that begins no escape is no backslash. -/
theorem ne_backslash (hne : ∀ x xs, c = '\\' → us = x :: xs → False)
    (hlast : c = '\\' → us = [] → False) : c ≠ '\\' := by
  intro hc
  cases us with
  | nil => exact hlast hc rfl
  | cons x us => exact hne x us hc rfl

/-- A backslash takes the next character with it. -/
theorem literalBody_escape (h : ¬(c = '\r' ∧ us.head? = some '\n')) :
    literalBody mark ('\\' :: c :: us) =
      ((literalBody mark us).1 + 2, (literalBody mark us).2) := by
  rw [literalBody.eq_3]
  rintro rest rfl rfl
  exact h ⟨rfl, rfl⟩

/-- A character that is no backslash ends the literal or belongs to it. -/
theorem literalBody_cons (h : c ≠ '\\') (us : List Char) :
    literalBody mark (c :: us) =
      if c = mark then (1, true)
      else if isLineEnd c then (0, true)
      else ((literalBody mark us).1 + 1, (literalBody mark us).2) := by
  rw [literalBody.eq_5]
  · exact fun _ hc _ => h hc
  · exact fun _ _ hc _ => h hc
  · exact fun hc _ => h hc

end

/-- The kind of an identifier: a reserved word is a keyword. -/
def wordKind (dialect : CDialect) (word : List Char) : TokenKind :=
  if word.all Char.isLower && dialect.isKeyword (String.ofList word) then .keyword else .token

/-- The length and the kind of the first token. -/
def scan (dialect : CDialect) : List Char → Nat × TokenKind
  | [] => (0, .endOfInput)
  | c :: rest =>
    if c = '/' ∧ rest.head? = some '/' ∧ dialect.hasLineComments then
      (((c :: rest).takeWhile (!isLineEnd ·)).length, .comment)
    else if c = '/' ∧ rest.head? = some '*' then
      let (n, closed) := commentBody rest.tail
      (n + 2, commentKind closed)
    else if c = '"' ∨ c = '\'' then
      let (n, closed) := literalBody c rest
      (n + 1, constantKind closed)
    else if isIdentifierStart c then
      let word := (c :: rest).takeWhile isIdentifierChar
      (word.length, dialect.wordKind word)
    else if c.isDigit then ((c :: rest).takeWhile isNumberChar |>.length, .token)
    else (1, .token)

/-! ## Progress -/

/-- A comment that is not at the end takes a character. -/
theorem commentBody_pos {cs : List Char} (h : cs ≠ []) : 0 < (commentBody cs).1 := by
  unfold commentBody
  split <;> simp_all

/-- What begins an identifier may go on with one. -/
theorem isIdentifierChar_of_start {c : Char} (h : isIdentifierStart c = true) :
    isIdentifierChar c = true := by
  simp only [isIdentifierStart, isIdentifierChar, Text.isLetterOrNumeral, Bool.or_eq_true] at *
  rcases h with (h | h) | h
  · exact .inl (.inl (.inl h))
  · exact .inl (.inr h)
  · exact .inr h

/-- Every token takes a character. -/
theorem scan_pos (dialect : CDialect) {cs : List Char} (h : cs ≠ []) :
    0 < (dialect.scan cs).1 := by
  cases cs with
  | nil => exact absurd rfl h
  | cons c rest =>
    simp only [scan]
    split
    · rename_i hc
      simp [hc.1, isLineEnd]
    · split
      · simp
      · split
        · simp
        · split
          · rename_i hc
            simp [isIdentifierChar_of_start hc]
          · split
            · rename_i hc
              simp [isNumberChar, Char.isAlphanum, hc]
            · simp

end CDialect

end Markup.Lexis
