import Markup.Lexis.CFamily.Tokens
import Markup.Lexis.Scanner
import Markup.Lexis.Smalltalk.Tokens

/-!
# Tokenizers

A tokenizer is a lexer of a language over a range of a text. Its tokens are those of a scanner of
the characters that are left in the range, and so is what it leaves open (`next_scanner`,
`all_scanner`): although it holds the whole text, it sees no more of it.
-/

namespace Markup.Lexis

/-! ## Lexers of a language -/

/-- The next token of a language. -/
def Language.next : Language → Lexer → Token × Lexer
  | cFamily dialect =>
    Lexer.next CDialect.consumeComment (CDialect.consumeLiteral '"') dialect.dispatch
  | smalltalk => Lexer.next Smalltalk.consumeComment Smalltalk.consumeString Smalltalk.dispatch

/-- The next token has the length and the kind that the rules of the language say. -/
theorem Language.next_eq (language : Language) (l : Lexer) :
    language.next l =
      if l.cursor.rest = [] then l.emit l.cursor.position 0 .endOfInput
      else if l.state.inComment then
        l.emit l.cursor.position (language.resumeComment l.cursor.rest).1
          (language.resumeComment l.cursor.rest).2
      else if l.state.inConstant then
        l.emit l.cursor.position (language.resumeConstant l.cursor.rest).1
          (language.resumeConstant l.cursor.rest).2
      else
        (l.advanceWhile Text.isBlank).emit (l.advanceWhile Text.isBlank).cursor.position
          (language.scan (l.advanceWhile Text.isBlank).cursor.rest).1
          (language.scan (l.advanceWhile Text.isBlank).cursor.rest).2 := by
  cases language with
  | cFamily dialect =>
    exact l.next_eq CDialect.consumeComment_eq (CDialect.consumeLiteral_eq '"')
      (fun _ _ _ hrest hinitial => dialect.dispatch_eq hrest hinitial) rfl
  | smalltalk =>
    exact l.next_eq Smalltalk.consumeComment_eq Smalltalk.consumeString_eq
      (fun _ _ _ hrest hinitial => Smalltalk.dispatch_eq hrest hinitial) rfl

namespace Lexer

/-- A scanner of the characters that are left. -/
def scanner (language : Language) (l : Lexer) : Scanner :=
  ⟨language, l.cursor.position, l.cursor.rest, l.state⟩

/-- Passing over blanks. -/
theorem scanner_advanceWhile (language : Language) (l : Lexer) :
    (l.advanceWhile Text.isBlank).scanner language =
      (l.scanner language).skip (l.scanner language).blanks := by
  simp only [scanner, advanceWhile, Cursor.consumeWhile_eq, Cursor.position_skip,
    Cursor.rest_skip, Scanner.skip, Scanner.blanks]

/-- Taking a token. -/
theorem emit_scanner (language : Language) (l : Lexer) (n : Nat) (kind : TokenKind) :
    (l.scanner language).emit n kind =
      ((l.emit l.cursor.position n kind).1,
        (l.emit l.cursor.position n kind).2.scanner language) := by
  simp only [emit, scanner, Scanner.emit, Scanner.skip, Cursor.tokenFrom, Cursor.position_skip,
    Cursor.rest_skip]

/-- The next token of a lexer is that of the scanner of what is left. -/
theorem next_scanner (language : Language) (l : Lexer) :
    (l.scanner language).next =
      ((language.next l).1, (language.next l).2.scanner language) := by
  rw [language.next_eq]
  by_cases hrest : l.cursor.rest = []
  · rw [if_pos hrest, ← emit_scanner]
    exact if_pos hrest
  · rw [if_neg hrest]
    by_cases hcomment : l.state.inComment = true
    · rw [if_pos hcomment, ← emit_scanner]
      exact (if_neg hrest).trans (if_pos hcomment)
    · rw [if_neg hcomment]
      by_cases hconstant : l.state.inConstant = true
      · rw [if_pos hconstant, ← emit_scanner]
        exact (if_neg hrest).trans ((if_neg hcomment).trans (if_pos hconstant))
      · have hblanks := l.scanner_advanceWhile language
        have hleft : (l.advanceWhile Text.isBlank).cursor.rest = _ := congrArg Scanner.rest hblanks
        rw [if_neg hconstant, ← emit_scanner, hblanks, hleft]
        exact (if_neg hrest).trans ((if_neg hcomment).trans (if_neg hconstant))

end Lexer

/-! ## Tokenizers -/

/-- A lexer and the language of its text. -/
structure Tokenizer extends Lexer where
  /-- The language of the text. -/
  language : Language

namespace Tokenizer

/-- A tokenizer over the characters between two offsets of a text. Each offset is moved back to
the start of its character and into the text, and the first to the second if it is larger. -/
def ofRange (language : Language) (text : String) (start stop : Nat) (state : LexState) :
    Tokenizer :=
  ⟨⟨.ofRange text start stop, state⟩, language⟩

/-- A tokenizer over a whole text. -/
def ofText (language : Language) (text : String) : Tokenizer :=
  ofRange language text 0 (Text.byteLength text.toList) .initial

/-- Where the rest of the range begins. -/
def position (t : Tokenizer) : Nat :=
  t.cursor.position

/-- The rest of the range. -/
def rest (t : Tokenizer) : List Char :=
  t.cursor.rest

/-- The next token; at the end of the range there is one of kind `endOfInput`, again and again. -/
def next (t : Tokenizer) : Token × Tokenizer :=
  let (token, lexer) := t.language.next t.toLexer
  (token, { t with toLexer := lexer })

/-- A scanner of the rest of the range. -/
def scanner (t : Tokenizer) : Scanner :=
  t.toLexer.scanner t.language

/-- The next token is that of the scanner of the rest. -/
theorem next_scanner (t : Tokenizer) : t.scanner.next = (t.next.1, t.next.2.scanner) :=
  t.toLexer.next_scanner t.language

/-- Every token but the last lowers the load of the scanner of the rest. -/
theorem next_load_lt {t u : Tokenizer} {token : Token} (h : t.next = (token, u))
    (hkind : token.kind ≠ .endOfInput) : u.scanner.load < t.scanner.load := by
  have hnext := t.next_scanner
  rw [h] at hnext
  exact Scanner.next_load_lt hnext hkind

/-- The tokens up to the end of the range, and the tokenizer there. -/
def all (t : Tokenizer) : List Token × Tokenizer :=
  match _h : t.next with
  | (token, u) =>
    if _hkind : token.kind = .endOfInput then ([], u)
    else
      let (tokens, last) := u.all
      (token :: tokens, last)
termination_by t.scanner.load
decreasing_by exact next_load_lt _h _hkind

/-- The tokens of a range are those of the scanner of it. -/
theorem all_scanner (t : Tokenizer) : t.scanner.all = (t.all.1, t.all.2.scanner) := by
  fun_induction all t with
  | case1 t token u hnext hkind =>
    have hscanner := t.next_scanner
    rw [hnext] at hscanner
    exact Scanner.all_of_end hscanner hkind
  | case2 t token u hnext hkind tokens last hall ih =>
    have hscanner := t.next_scanner
    rw [hnext] at hscanner
    rw [Scanner.all_of_next hscanner hkind, ih, hall]

end Tokenizer

/-- The tokens of a whole text. -/
def tokenize (language : Language) (text : String) : List Token :=
  (Tokenizer.ofText language text).all.1

/-! ## Line by line -/

/-- The lines of a text, each with its line feed. -/
def splitLines : List Char → List (List Char)
  | [] => []
  | c :: rest =>
    if c = '\n' then [c] :: splitLines rest
    else
      match splitLines rest with
      | [] => [[c]]
      | line :: lines => (c :: line) :: lines

/-- A line without the carriage returns and line feeds at its end. -/
def trimLineEnds (line : List Char) : List Char :=
  (line.reverse.dropWhile CDialect.isLineEnd).reverse

/-- The tokens of lines of which the first begins at an offset of a text, each line resuming from
the state after the line before it. -/
def tokenizeLines (language : Language) (text : String) :
    Nat → LexState → List (List Char) → List Token
  | _, _, [] => []
  | start, state, line :: lines =>
    let stop := start + Text.byteLength (trimLineEnds line)
    let (tokens, last) := (Tokenizer.ofRange language text start stop state).all
    tokens ++ tokenizeLines language text (start + Text.byteLength line) last.state lines

/-- The tokens of a text that is tokenized line by line. -/
def tokenizeByLine (language : Language) (text : String) : List Token :=
  tokenizeLines language text 0 .initial (splitLines text.toList)

end Markup.Lexis
