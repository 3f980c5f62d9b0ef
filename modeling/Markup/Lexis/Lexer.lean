import Markup.Lexis.Cursor
import Markup.Text.Blank

/-!
# Lexers

A lexer is a cursor and what is open where it stands. What all languages have in common is the order
in which a lexer looks for the next token (`Lexer.next`): first it goes on with what is open, then
it passes over blanks, then the next character decides. The languages give the three ways to take a
token. Each of them amounts to a number of characters and a kind (`Lexer.emit`), and so does the
next token (`Lexer.next_eq`).
-/

namespace Markup.Lexis

/-- A cursor, and what is open where it stands. -/
structure Lexer where
  /-- Where the lexer is. -/
  cursor : Cursor
  /-- What is open there. -/
  state : LexState

namespace Lexer

/-- Takes the next character. -/
def advance (l : Lexer) : Lexer :=
  { l with cursor := l.cursor.consume.2 }

/-- Takes characters while they fulfil a condition. -/
def advanceWhile (p : Char → Bool) (l : Lexer) : Lexer :=
  { l with cursor := l.cursor.consumeWhile p }

/-- Ends a token that leaves what is open as it is. -/
def finish (l : Lexer) (start : Nat) (kind : TokenKind) : Token × Lexer :=
  (l.cursor.tokenFrom start kind, l)

/-- Ends the part of a comment that is in the range. Without an end it stays open. -/
def finishComment (l : Lexer) (start : Nat) (closed : Bool) : Token × Lexer :=
  (l.cursor.tokenFrom start (commentKind closed),
    { l with state := { l.state with inComment := !closed } })

/-- Ends the part of a literal that is in the range. Without an end it stays open. -/
def finishConstant (l : Lexer) (start : Nat) (closed : Bool) : Token × Lexer :=
  (l.cursor.tokenFrom start (constantKind closed),
    { l with state := { l.state with inConstant := !closed } })

/-- The next token, by the ways to take the rest of a comment, the rest of a literal and a token
that begins with a character. At the end of the range there is a token of its own. -/
def next (comment literal : Lexer → Nat → Token × Lexer)
    (dispatch : Char → Lexer → Nat → Token × Lexer) (l : Lexer) : Token × Lexer :=
  if l.cursor.atEnd then (l.cursor.endOfInput, l)
  else if l.state.inComment then comment l l.cursor.position
  else if l.state.inConstant then literal l l.cursor.position
  else
    let l := l.advanceWhile Text.isBlank
    match l.cursor.peek with
    | none => (l.cursor.endOfInput, l)
    | some c => dispatch c l l.cursor.position

/-! ## Tokens by their length -/

/-- The token from an earlier position over some more characters, and the lexer after it. -/
def emit (l : Lexer) (start n : Nat) (kind : TokenKind) : Token × Lexer :=
  ((l.cursor.skip n).tokenFrom start kind, ⟨l.cursor.skip n, l.state.after kind⟩)

variable (l : Lexer) (start : Nat)

/-- The first character is no longer left. -/
@[simp] theorem rest_advance : l.advance.cursor.rest = l.cursor.rest.tail :=
  l.cursor.rest_consume

/-- Of a first character and others, the others are left. -/
theorem rest_advance_of_cons {l : Lexer} {c : Char} {cs : List Char}
    (h : l.cursor.rest = c :: cs) : l.advance.cursor.rest = cs := by
  rw [rest_advance, h, List.tail_cons]

@[simp] theorem state_advance : l.advance.state = l.state := rfl

@[simp] theorem state_advanceWhile (p : Char → Bool) : (l.advanceWhile p).state = l.state := rfl

/-- The first characters that fulfil a condition are no longer left. -/
@[simp] theorem rest_advanceWhile (p : Char → Bool) :
    (l.advanceWhile p).cursor.rest = l.cursor.rest.dropWhile p := by
  rw [advanceWhile, Cursor.consumeWhile_eq, Cursor.rest_skip, drop_length_takeWhile]

/-- At the end of the range nothing is taken. -/
theorem advance_of_rest_nil {l : Lexer} (h : l.cursor.rest = []) : l.advance = l := by
  rw [advance, Cursor.consume_of_rest_nil h]

/-- Taking a character leaves no more characters. -/
theorem length_rest_advance_le : l.advance.cursor.rest.length ≤ l.cursor.rest.length := by
  rw [rest_advance, List.length_tail]
  exact Nat.sub_le _ 1

/-- Taking a character leaves fewer characters, if there is one. -/
theorem length_rest_advance_lt {l : Lexer} (h : l.cursor.rest ≠ []) :
    l.advance.cursor.rest.length < l.cursor.rest.length := by
  rw [rest_advance, List.length_tail]
  exact Nat.sub_one_lt (mt List.length_eq_zero_iff.1 h)

/-- Taking characters leaves no more characters. -/
theorem length_rest_advanceWhile_le (p : Char → Bool) :
    (l.advanceWhile p).cursor.rest.length ≤ l.cursor.rest.length := by
  rw [rest_advanceWhile]
  exact (List.dropWhile_sublist p).length_le

/-- A character that has been taken belongs to the token. -/
theorem emit_advance (n : Nat) (kind : TokenKind) :
    l.advance.emit start n kind = l.emit start (n + 1) kind := rfl

/-- Characters that have been taken belong to the token. -/
theorem emit_advanceWhile (p : Char → Bool) (n : Nat) (kind : TokenKind) :
    (l.advanceWhile p).emit start n kind =
      l.emit start ((l.cursor.rest.takeWhile p).length + n) kind := by
  simp only [emit, advanceWhile, Cursor.consumeWhile_eq, Cursor.skip_skip]

/-- The text of what has been taken. -/
theorem slice_advanceWhile (p : Char → Bool) :
    (l.advanceWhile p).cursor.slice l.cursor.position =
      String.ofList (l.cursor.rest.takeWhile p) := by
  rw [advanceWhile, Cursor.consumeWhile_eq, Cursor.slice_skip, take_length_takeWhile]

/-- A token that has been taken, if its kind says nothing else about what is open. -/
theorem finish_eq {l : Lexer} {kind : TokenKind} (h : l.state.after kind = l.state) :
    l.finish start kind = l.emit start 0 kind := by
  simp only [emit, h]
  rfl

/-- A word that is not of a kind which says what is open. Its text is cut out of the whole text. -/
theorem finish_word (p : Char → Bool) {kind : List Char → TokenKind}
    (hkind : ∀ (s : LexState) (word : List Char), s.after (kind word) = s) :
    (l.advanceWhile p).finish l.cursor.position
        (kind ((l.advanceWhile p).cursor.slice l.cursor.position).toList) =
      l.emit l.cursor.position (l.cursor.rest.takeWhile p).length
        (kind (l.cursor.rest.takeWhile p)) := by
  rw [slice_advanceWhile, String.toList_ofList, finish_eq _ (hkind _ _), emit_advanceWhile,
    Nat.add_zero]

section

variable {l : Lexer} {kind : TokenKind} (hinitial : l.state = .initial)
  (hkind : LexState.initial.after kind = .initial)

include hinitial hkind

/-- A character that is a token where nothing is open. -/
theorem finish_advance : l.advance.finish start kind = l.emit start 1 kind := by
  rw [finish_eq start (by rw [state_advance, hinitial, hkind]), emit_advance]

/-- Characters that are a token where nothing is open. -/
theorem finish_advanceWhile (p : Char → Bool) :
    (l.advanceWhile p).finish start kind =
      l.emit start (l.cursor.rest.takeWhile p).length kind := by
  rw [finish_eq start (by rw [state_advanceWhile, hinitial, hkind]), emit_advanceWhile,
    Nat.add_zero]

end

/-- A comment says itself whether it is open. -/
theorem finishComment_eq (closed : Bool) :
    l.finishComment start closed = l.emit start 0 (commentKind closed) := by
  cases closed <;> rfl

/-- A literal says itself whether it is open. -/
theorem finishConstant_eq (closed : Bool) :
    l.finishConstant start closed = l.emit start 0 (constantKind closed) := by
  cases closed <;> rfl

/-- At the end of the range nothing is taken. -/
theorem endOfInput_eq {l : Lexer} (h : l.cursor.rest = []) :
    (l.cursor.endOfInput, l) = l.emit l.cursor.position 0 .endOfInput := by
  simp only [emit, Cursor.skip_zero, Cursor.tokenFrom, Cursor.endOfInput,
    Cursor.position_of_rest_nil h]
  rfl

/-- The next token has the length and the kind that rules on the characters left say, if the three
ways to take a token do what the rules say. -/
theorem next_eq {comment literal : Lexer → Nat → Token × Lexer}
    {dispatch : Char → Lexer → Nat → Token × Lexer}
    {resumeComment resumeConstant scan : List Char → Nat × TokenKind}
    (hcomment : ∀ l start, comment l start =
      l.emit start (resumeComment l.cursor.rest).1 (resumeComment l.cursor.rest).2)
    (hliteral : ∀ l start, literal l start =
      l.emit start (resumeConstant l.cursor.rest).1 (resumeConstant l.cursor.rest).2)
    (hdispatch : ∀ c cs l, l.cursor.rest = c :: cs → l.state = .initial →
      dispatch c l l.cursor.position =
        l.emit l.cursor.position (scan (c :: cs)).1 (scan (c :: cs)).2)
    (hnil : scan [] = (0, .endOfInput)) :
    l.next comment literal dispatch =
      if l.cursor.rest = [] then l.emit l.cursor.position 0 .endOfInput
      else if l.state.inComment then
        l.emit l.cursor.position (resumeComment l.cursor.rest).1 (resumeComment l.cursor.rest).2
      else if l.state.inConstant then
        l.emit l.cursor.position (resumeConstant l.cursor.rest).1 (resumeConstant l.cursor.rest).2
      else
        (l.advanceWhile Text.isBlank).emit (l.advanceWhile Text.isBlank).cursor.position
          (scan (l.advanceWhile Text.isBlank).cursor.rest).1
          (scan (l.advanceWhile Text.isBlank).cursor.rest).2 := by
  simp only [next, Cursor.atEnd_iff]
  by_cases hrest : l.cursor.rest = []
  · rw [if_pos hrest, if_pos hrest, endOfInput_eq hrest]
  · rw [if_neg hrest, if_neg hrest]
    by_cases hinComment : l.state.inComment = true
    · rw [if_pos hinComment, if_pos hinComment, hcomment]
    · rw [if_neg hinComment, if_neg hinComment]
      by_cases hinConstant : l.state.inConstant = true
      · rw [if_pos hinConstant, if_pos hinConstant, hliteral]
      · rw [if_neg hinConstant, if_neg hinConstant]
        cases hleft : (l.advanceWhile Text.isBlank).cursor.rest with
        | nil => simp only [Cursor.peek, hleft, List.head?_nil, hnil, endOfInput_eq hleft]
        | cons c cs =>
          have hinitial : (l.advanceWhile Text.isBlank).state = .initial := by
            rw [state_advanceWhile]
            obtain ⟨cursor, inConstant, inComment⟩ := l
            simp_all [LexState.initial]
          simp only [Cursor.peek, hleft, List.head?_cons]
          exact hdispatch c cs _ hleft hinitial

end Lexer

end Markup.Lexis
