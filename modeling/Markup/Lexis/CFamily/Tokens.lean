import Markup.Lexis.CFamily
import Markup.Lexis.Lexer

/-!
# Tokens of the C family

How a lexer takes each shape of token of Java, C and C++. What it takes are as many characters as
the rules for the characters left say (`consumeComment_eq`, `consumeLiteral_eq`, `dispatch_eq`), so
no shape looks past the end of the range, although each looks ahead.
-/

namespace Markup.Lexis.CDialect

/-- Takes the rest of a comment, up to `*/` or the end of the range. -/
def consumeComment (l : Lexer) (start : Nat) : Token × Lexer :=
  if l.cursor.startsWith "*/" then l.advance.advance.finishComment start true
  else if l.cursor.consume.1 = none then l.advance.finishComment start false
  else consumeComment l.advance start
termination_by l.cursor.rest.length
decreasing_by
  rename_i h
  rw [Cursor.fst_consume, List.head?_eq_none_iff] at h
  exact Lexer.length_rest_advance_lt h

/-- Takes the character after a backslash, and of a carriage return with a line feed both. -/
def takeEscaped (l : Lexer) : Lexer :=
  if l.cursor.consume.1 = some '\r' ∧ l.advance.cursor.peek = some '\n' then l.advance.advance
  else l.advance

/-- An escaped character leaves no more characters. -/
theorem length_rest_takeEscaped_le (l : Lexer) :
    (takeEscaped l).cursor.rest.length ≤ l.cursor.rest.length := by
  unfold takeEscaped
  split
  · exact Nat.le_trans l.advance.length_rest_advance_le l.length_rest_advance_le
  · exact l.length_rest_advance_le

/-- Takes the rest of a literal, up to its mark. A line end ends it as well and is left, unless a
backslash takes it along. -/
def consumeLiteral (mark : Char) (l : Lexer) (start : Nat) : Token × Lexer :=
  match _h : l.cursor.peek with
  | none => l.finishConstant start false
  | some c =>
    if c = '\\' then consumeLiteral mark (takeEscaped l.advance) start
    else if c = mark then l.advance.finishConstant start true
    else if isLineEnd c then l.finishConstant start true
    else consumeLiteral mark l.advance start
termination_by l.cursor.rest.length
decreasing_by
  · exact Nat.lt_of_le_of_lt (length_rest_takeEscaped_le _)
      (Lexer.length_rest_advance_lt (Cursor.rest_ne_nil_of_peek _h))
  · exact Lexer.length_rest_advance_lt (Cursor.rest_ne_nil_of_peek _h)

/-- Takes an identifier, which is a keyword if it is a reserved word. -/
def consumeIdentifier (dialect : CDialect) (l : Lexer) (start : Nat) : Token × Lexer :=
  let l := l.advanceWhile isIdentifierChar
  l.finish start (dialect.wordKind (l.cursor.slice start).toList)

/-- Takes a number. -/
def consumeNumber (l : Lexer) (start : Nat) : Token × Lexer :=
  (l.advanceWhile isNumberChar).finish start .token

/-- Takes a token that begins with a character. -/
def dispatch (dialect : CDialect) (c : Char) (l : Lexer) (start : Nat) : Token × Lexer :=
  if c = '/' ∧ l.cursor.peekAt 1 = some '/' ∧ dialect.hasLineComments then
    (l.advanceWhile (!isLineEnd ·)).finish start .comment
  else if c = '/' ∧ l.cursor.peekAt 1 = some '*' then consumeComment l.advance.advance start
  else if c = '"' ∨ c = '\'' then consumeLiteral c l.advance start
  else if isIdentifierStart c then dialect.consumeIdentifier l start
  else if c.isDigit then consumeNumber l start
  else l.advance.finish start .token

/-! ## Tokens by the characters left -/

/-- A cursor stands before the end of a comment if the next two characters are that. -/
theorem startsWith_end_iff {c : Cursor} {x : Char} {cs : List Char} (h : c.rest = x :: cs) :
    c.startsWith "*/" = true ↔ x = '*' ∧ cs.head? = some '/' := by
  have hend : "*/".toList = ['*', '/'] := rfl
  rw [Cursor.startsWith, h, hend, List.isPrefixOf_iff_prefix, List.cons_prefix_cons, eq_comm]
  refine and_congr_right' ?_
  cases cs with
  | nil => simp
  | cons y cs => simp [eq_comm]

/-- The rest of a comment. -/
theorem consumeComment_eq (l : Lexer) (start : Nat) :
    consumeComment l start =
      l.emit start (commentBody l.cursor.rest).1 (commentKind (commentBody l.cursor.rest).2) := by
  generalize hrest : l.cursor.rest = cs
  induction cs generalizing l with
  | nil =>
    have hstart : l.cursor.startsWith "*/" = false := by
      rw [Cursor.startsWith, hrest]
      rfl
    rw [consumeComment, hstart, if_neg Bool.false_ne_true, Cursor.consume_of_rest_nil hrest,
      if_pos rfl, Lexer.advance_of_rest_nil hrest, Lexer.finishComment_eq]
    rfl
  | cons x cs ih =>
    rw [consumeComment]
    by_cases hend : x = '*' ∧ cs.head? = some '/'
    · rw [if_pos ((startsWith_end_iff hrest).2 hend), Lexer.finishComment_eq, Lexer.emit_advance,
        Lexer.emit_advance]
      obtain ⟨rfl, hslash⟩ := hend
      obtain ⟨more, rfl⟩ := List.head?_eq_some_iff.1 hslash
      rfl
    · have hne : l.cursor.consume.1 ≠ none := by
        rw [Cursor.fst_consume, hrest]
        exact Option.some_ne_none x
      rw [if_neg (mt (startsWith_end_iff hrest).1 hend), if_neg hne,
        ih l.advance (Lexer.rest_advance_of_cons hrest), Lexer.emit_advance, commentBody_cons hend]

variable {mark c : Char} {cs : List Char} {l : Lexer}

/-- The next character decides how a literal goes on. -/
theorem consumeLiteral_cons (hrest : l.cursor.rest = c :: cs) (start : Nat) :
    consumeLiteral mark l start =
      if c = '\\' then consumeLiteral mark (takeEscaped l.advance) start
      else if c = mark then l.advance.finishConstant start true
      else if isLineEnd c then l.finishConstant start true
      else consumeLiteral mark l.advance start := by
  rw [consumeLiteral]
  split
  · rename_i hpeek
    rw [Cursor.peek, hrest] at hpeek
    cases hpeek
  · rename_i x hpeek
    rw [Cursor.peek, hrest] at hpeek
    cases hpeek
    rfl

/-- At the end of the range the literal stays open. -/
theorem consumeLiteral_nil (hrest : l.cursor.rest = []) (start : Nat) :
    consumeLiteral mark l start = l.emit start 0 .openConstant := by
  rw [consumeLiteral]
  split
  · exact l.finishConstant_eq start false
  · rename_i hpeek
    exact absurd hrest (Cursor.rest_ne_nil_of_peek hpeek)

/-- A carriage return and a line feed are escaped together. -/
theorem takeEscaped_pair (hrest : l.cursor.rest = '\r' :: '\n' :: cs) :
    takeEscaped l = l.advance.advance := by
  refine if_pos ⟨?_, ?_⟩
  · rw [Cursor.fst_consume, hrest, List.head?_cons]
  · rw [Cursor.peek, Lexer.rest_advance_of_cons hrest, List.head?_cons]

/-- Any other character is escaped alone. -/
theorem takeEscaped_single (hrest : l.cursor.rest = cs)
    (h : ¬(cs.head? = some '\r' ∧ cs.tail.head? = some '\n')) : takeEscaped l = l.advance := by
  refine if_neg ?_
  rwa [Cursor.fst_consume, Cursor.peek, Lexer.rest_advance, hrest]

/-- The rest of a literal. -/
theorem consumeLiteral_eq (mark : Char) (l : Lexer) (start : Nat) :
    consumeLiteral mark l start =
      l.emit start (literalBody mark l.cursor.rest).1
        (constantKind (literalBody mark l.cursor.rest).2) := by
  generalize hrest : l.cursor.rest = cs
  have hadvance {l : Lexer} {c : Char} {cs : List Char} (h : l.cursor.rest = c :: cs) :
      l.advance.cursor.rest = cs := Lexer.rest_advance_of_cons h
  induction cs using literalBody.induct mark generalizing l with
  | case1 => exact consumeLiteral_nil hrest start
  | case2 rest n closed hbody ih =>
    have hescaped := takeEscaped_pair (hadvance hrest)
    rw [consumeLiteral_cons hrest, if_pos rfl, hescaped,
      ih _ (hadvance (hadvance (hadvance hrest))), Lexer.emit_advance, Lexer.emit_advance,
      Lexer.emit_advance]
    rfl
  | case3 c rest hne n closed hbody ih =>
    have hpair : ¬(c = '\r' ∧ rest.head? = some '\n') := by
      rintro ⟨rfl, hfeed⟩
      obtain ⟨more, rfl⟩ := List.head?_eq_some_iff.1 hfeed
      exact hne more rfl rfl
    have hescaped : takeEscaped l.advance = l.advance.advance :=
      takeEscaped_single (hadvance hrest) fun h => hpair ⟨Option.some.inj h.1, h.2⟩
    rw [consumeLiteral_cons hrest, if_pos rfl, hescaped, ih _ (hadvance (hadvance hrest)),
      Lexer.emit_advance, Lexer.emit_advance, literalBody_escape hpair]
  | case4 =>
    have hescaped : takeEscaped l.advance = l.advance := by
      rw [takeEscaped_single (hadvance hrest) (by simp),
        Lexer.advance_of_rest_nil (hadvance hrest)]
    rw [consumeLiteral_cons hrest, if_pos rfl, hescaped, consumeLiteral_nil (hadvance hrest),
      Lexer.emit_advance]
    rfl
  | case5 rest _ hne hlast =>
    have hescape : mark ≠ '\\' := ne_backslash hne hlast
    rw [consumeLiteral_cons hrest, if_neg hescape, if_pos rfl, Lexer.finishConstant_eq,
      Lexer.emit_advance, literalBody_cons hescape, if_pos rfl]
  | case6 c rest _ hne hlast hmark hline =>
    have hescape : c ≠ '\\' := ne_backslash hne hlast
    rw [consumeLiteral_cons hrest, if_neg hescape, if_neg hmark, if_pos hline,
      Lexer.finishConstant_eq, literalBody_cons hescape, if_neg hmark, if_pos hline]
  | case7 c rest _ hne hlast hmark hline n closed hbody ih =>
    have hescape : c ≠ '\\' := ne_backslash hne hlast
    rw [consumeLiteral_cons hrest, if_neg hescape, if_neg hmark, if_neg hline,
      ih _ (hadvance hrest), Lexer.emit_advance, literalBody_cons hescape, if_neg hmark,
      if_neg hline]

/-- An identifier. -/
theorem consumeIdentifier_eq (dialect : CDialect) (l : Lexer) :
    dialect.consumeIdentifier l l.cursor.position =
      l.emit l.cursor.position (l.cursor.rest.takeWhile isIdentifierChar).length
        (dialect.wordKind (l.cursor.rest.takeWhile isIdentifierChar)) := by
  refine l.finish_word isIdentifierChar fun s word => ?_
  unfold wordKind
  split <;> rfl

/-- A token that begins with a character, where nothing is open. -/
theorem dispatch_eq (dialect : CDialect) {c : Char} {cs : List Char} {l : Lexer}
    (hrest : l.cursor.rest = c :: cs) (hinitial : l.state = .initial) :
    dialect.dispatch c l l.cursor.position =
      l.emit l.cursor.position (dialect.scan (c :: cs)).1 (dialect.scan (c :: cs)).2 := by
  have htail := Lexer.rest_advance_of_cons hrest
  simp only [dispatch, scan, Cursor.peekAt_one hrest]
  split
  · rw [Lexer.finish_advanceWhile _ hinitial rfl, hrest]
  · split
    · rw [consumeComment_eq, Lexer.emit_advance, Lexer.emit_advance, Lexer.rest_advance, htail]
    · split
      · rw [consumeLiteral_eq, Lexer.emit_advance, htail]
      · split
        · rw [consumeIdentifier_eq, hrest]
        · split
          · rw [consumeNumber, Lexer.finish_advanceWhile _ hinitial rfl, hrest]
          · exact Lexer.finish_advance _ hinitial rfl

end Markup.Lexis.CDialect
