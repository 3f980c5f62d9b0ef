import Markup.Lexis.Lexer
import Markup.Lexis.Smalltalk

/-!
# Tokens of Smalltalk

How a lexer takes each shape of token of Smalltalk. What it takes are as many characters as the
rules for the characters left say (`consumeComment_eq`, `consumeString_eq`, `dispatch_eq`). A mark
that may be doubled, a point that may belong to a number, a sign that may be the first half of `:=`
and a `$` that may stand alone are decided within the range.
-/

namespace Markup.Lexis.Smalltalk

/-- Takes the rest of a comment, up to its mark or the end of the range. -/
def consumeComment (l : Lexer) (start : Nat) : Token × Lexer :=
  let l := l.advanceWhile (· ≠ '"')
  l.advance.finishComment start l.cursor.consume.1.isSome

/-- Takes the rest of a string, up to a mark that is not doubled or the end of the range. -/
def consumeString (l : Lexer) (start : Nat) : Token × Lexer :=
  match _h : l.cursor.consume.1 with
  | none => l.advance.finishConstant start false
  | some c =>
    if c = '\'' then
      if l.advance.cursor.peek = some '\'' then consumeString l.advance.advance start
      else l.advance.finishConstant start true
    else consumeString l.advance start
termination_by l.cursor.rest.length
decreasing_by
  all_goals
    have hne : l.cursor.rest ≠ [] :=
      Cursor.rest_ne_nil_of_peek ((Cursor.fst_consume _).symm.trans _h)
  · exact Nat.lt_of_le_of_lt (Lexer.length_rest_advance_le _) (Lexer.length_rest_advance_lt hne)
  · exact Lexer.length_rest_advance_lt hne

/-- Takes a literal that begins with `#`: a string, a name, a selector, or the sign alone. -/
def consumeSymbol (l : Lexer) (start : Nat) : Token × Lexer :=
  let l := l.advance
  match l.cursor.peek with
  | some c =>
    if c = '\'' then consumeString l.advance start
    else if Text.isLetter c then (l.advanceWhile isSymbolChar).finish start .constant
    else if isSelectorChar c then (l.advanceWhile isSelectorChar).finish start .constant
    else l.finish start .token
  | none => l.finish start .token

/-- Takes an identifier, which is a keyword if its meaning is fixed. -/
def consumeIdentifier (l : Lexer) (start : Nat) : Token × Lexer :=
  let l := l.advanceWhile Text.isLetterOrNumeral
  l.finish start (wordKind (l.cursor.slice start).toList)

/-- Takes the points that a digit follows, each with the letters and digits after it. -/
def takeFractions (l : Lexer) : Lexer :=
  if l.cursor.peek = some '.' ∧ (l.cursor.peekAt 1).any Char.isDigit then
    takeFractions (l.advance.advanceWhile Char.isAlphanum)
  else l
termination_by l.cursor.rest.length
decreasing_by
  rename_i h
  exact Nat.lt_of_le_of_lt (Lexer.length_rest_advanceWhile_le _ _)
    (Lexer.length_rest_advance_lt (Cursor.rest_ne_nil_of_peek h.1))

/-- Takes a number. -/
def consumeNumber (l : Lexer) (start : Nat) : Token × Lexer :=
  (takeFractions (l.advanceWhile Char.isAlphanum)).finish start .token

/-- Takes one character. -/
def consumeSingle (l : Lexer) (start : Nat) (kind : TokenKind) : Token × Lexer :=
  l.advance.finish start kind

/-- Takes a token that begins with a character. -/
def dispatch (c : Char) (l : Lexer) (start : Nat) : Token × Lexer :=
  if c = '"' then consumeComment l.advance start
  else if c = '\'' then consumeString l.advance start
  else if c = '#' then consumeSymbol l start
  else if c = '$' ∧ (l.cursor.peekAt 1).isSome then consumeSingle l.advance start .constant
  else if c = '^' ∨ c = '_' then consumeSingle l start .keyword
  else if c = ':' ∧ l.cursor.peekAt 1 = some '=' then consumeSingle l.advance start .keyword
  else if Text.isLetter c then consumeIdentifier l start
  else if c.isDigit then consumeNumber l start
  else consumeSingle l start .token

/-! ## Tokens by the characters left -/

variable {c : Char} {cs : List Char} {l : Lexer}

/-- A comment takes what comes before its mark, and the mark. -/
theorem commentBody_eq (cs : List Char) :
    commentBody cs =
      ((cs.takeWhile (· ≠ '"')).length + ((cs.dropWhile (· ≠ '"')).take 1).length,
        (cs.dropWhile (· ≠ '"')).head?.isSome) := by
  induction cs with
  | nil => rfl
  | cons c cs ih =>
    by_cases hc : c = '"'
    · subst hc
      rfl
    · rw [commentBody_cons hc, ih, List.takeWhile_cons_of_pos (by simpa using hc),
        List.dropWhile_cons_of_pos (by simpa using hc), List.length_cons, Nat.add_right_comm]

/-- The rest of a comment. -/
theorem consumeComment_eq (l : Lexer) (start : Nat) :
    consumeComment l start =
      l.emit start (commentBody l.cursor.rest).1 (commentKind (commentBody l.cursor.rest).2) := by
  have hleft := l.rest_advanceWhile (· ≠ '"')
  rw [consumeComment, Lexer.finishComment_eq, Cursor.fst_consume, hleft, commentBody_eq]
  cases hmark : l.cursor.rest.dropWhile (· ≠ '"') with
  | nil =>
    rw [hmark] at hleft
    rw [Lexer.advance_of_rest_nil hleft, Lexer.emit_advanceWhile]
    rfl
  | cons c cs =>
    rw [Lexer.emit_advance, Lexer.emit_advanceWhile]
    rfl

/-- The next character decides how a string goes on. -/
theorem consumeString_cons (hrest : l.cursor.rest = c :: cs) (start : Nat) :
    consumeString l start =
      if c = '\'' then
        if cs.head? = some '\'' then consumeString l.advance.advance start
        else l.advance.finishConstant start true
      else consumeString l.advance start := by
  have htail : l.advance.cursor.peek = cs.head? := by
    rw [Cursor.peek, Lexer.rest_advance_of_cons hrest]
  rw [consumeString, htail]
  split
  · rename_i hnone
    rw [Cursor.fst_consume, hrest] at hnone
    cases hnone
  · rename_i x hsome
    rw [Cursor.fst_consume, hrest] at hsome
    cases hsome
    rfl

/-- The rest of a string. -/
theorem consumeString_eq (l : Lexer) (start : Nat) :
    consumeString l start =
      l.emit start (stringBody l.cursor.rest).1 (constantKind (stringBody l.cursor.rest).2) := by
  generalize hrest : l.cursor.rest = cs
  have hadvance {l : Lexer} {c : Char} {cs : List Char} (h : l.cursor.rest = c :: cs) :
      l.advance.cursor.rest = cs := Lexer.rest_advance_of_cons h
  induction cs using stringBody.induct generalizing l with
  | case1 =>
    rw [consumeString]
    split
    · rw [Lexer.advance_of_rest_nil hrest]
      exact l.finishConstant_eq start false
    · rename_i hsome
      rw [Cursor.fst_consume, hrest] at hsome
      cases hsome
  | case2 rest n closed hbody ih =>
    rw [consumeString_cons hrest, if_pos rfl, List.head?_cons, if_pos rfl,
      ih _ (hadvance (hadvance hrest)), Lexer.emit_advance, Lexer.emit_advance, stringBody_pair]
  | case3 rest hsingle =>
    have hmark : rest.head? ≠ some '\'' := by
      intro hhead
      obtain ⟨more, rfl⟩ := List.head?_eq_some_iff.1 hhead
      exact hsingle more rfl
    rw [consumeString_cons hrest, if_pos rfl, if_neg hmark, Lexer.finishConstant_eq,
      Lexer.emit_advance, stringBody_mark hmark]
  | case4 c rest hpair hne n closed hbody ih =>
    rw [consumeString_cons hrest, if_neg hne, ih _ (hadvance hrest), Lexer.emit_advance,
      stringBody_cons hne]

/-- A literal that begins with `#`. -/
theorem consumeSymbol_eq (hrest : l.cursor.rest = c :: cs) (hinitial : l.state = .initial)
    (start : Nat) :
    consumeSymbol l start = l.emit start ((symbolBody cs).1 + 1) (symbolBody cs).2 := by
  have htail := Lexer.rest_advance_of_cons hrest
  have hadvance : l.advance.state = .initial := hinitial
  simp only [consumeSymbol, Cursor.peek, htail]
  cases cs with
  | nil => exact Lexer.finish_advance start hinitial rfl
  | cons x cs =>
    simp only [List.head?_cons, symbolBody]
    split
    · rw [consumeString_eq, Lexer.emit_advance, Lexer.emit_advance, Lexer.rest_advance, htail,
        List.tail_cons]
    · split
      · rw [Lexer.finish_advanceWhile _ hadvance rfl, Lexer.emit_advance, htail]
      · split
        · rw [Lexer.finish_advanceWhile _ hadvance rfl, Lexer.emit_advance, htail]
        · exact Lexer.finish_advance start hinitial rfl

/-- An identifier. -/
theorem consumeIdentifier_eq (l : Lexer) :
    consumeIdentifier l l.cursor.position =
      l.emit l.cursor.position (l.cursor.rest.takeWhile Text.isLetterOrNumeral).length
        (wordKind (l.cursor.rest.takeWhile Text.isLetterOrNumeral)) := by
  refine l.finish_word Text.isLetterOrNumeral fun s word => ?_
  unfold wordKind
  split <;> rfl

/-- A number begins with its letters and digits. -/
theorem numberLength_eq (cs : List Char) :
    numberLength cs =
      (cs.takeWhile Char.isAlphanum).length + numberLength (cs.dropWhile Char.isAlphanum) := by
  induction cs with
  | nil => rfl
  | cons c cs ih =>
    by_cases hc : c.isAlphanum = true
    · rw [numberLength, if_pos (.inl hc), ih, List.takeWhile_cons_of_pos hc,
        List.dropWhile_cons_of_pos hc, List.length_cons, Nat.add_right_comm]
    · rw [List.takeWhile_cons_of_neg hc, List.dropWhile_cons_of_neg hc, List.length_nil,
        Nat.zero_add]

/-- The letters and digits of a number and its fractions. -/
theorem emit_takeFractions (l : Lexer) (start n : Nat) (kind : TokenKind) :
    (takeFractions (l.advanceWhile Char.isAlphanum)).emit start n kind =
      l.emit start (numberLength l.cursor.rest + n) kind := by
  generalize hlength : l.cursor.rest.length = length
  induction length using Nat.strongRecOn generalizing l with
  | _ length ih =>
    subst hlength
    have hleft := l.rest_advanceWhile Char.isAlphanum
    rw [numberLength_eq, takeFractions]
    cases hdigits : l.cursor.rest.dropWhile Char.isAlphanum with
    | nil =>
      rw [hdigits] at hleft
      rw [if_neg fun h => Cursor.rest_ne_nil_of_peek h.1 hleft, Lexer.emit_advanceWhile]
      rfl
    | cons c cs =>
      rw [hdigits] at hleft
      have hc : c.isAlphanum = false := by
        have hstop := List.head?_dropWhile_not Char.isAlphanum l.cursor.rest
        rwa [hdigits] at hstop
      rw [Cursor.peek, Cursor.peekAt_one hleft, hleft, List.head?_cons, numberLength]
      by_cases hpoint : c = '.' ∧ cs.head?.any Char.isDigit = true
      · -- a point with a digit after it, and the letters and digits after that
        have htail := Lexer.rest_advance_of_cons hleft
        have hlt : cs.length < l.cursor.rest.length := by
          have hle := (List.dropWhile_sublist Char.isAlphanum (l := l.cursor.rest)).length_le
          rw [hdigits] at hle
          exact hle
        rw [if_pos ⟨congrArg some hpoint.1, hpoint.2⟩, if_pos (.inr hpoint),
          ih _ (by rw [htail]; exact hlt) _ rfl, htail, Lexer.emit_advance,
          Lexer.emit_advanceWhile]
        congr 1
        omega
      · have hnumber : ¬(c.isAlphanum = true ∨ c = '.' ∧ cs.head?.any Char.isDigit = true) := by
          rw [hc]
          exact fun h => h.elim (fun h => Bool.false_ne_true h) hpoint
        rw [if_neg fun h => hpoint ⟨Option.some.inj h.1, h.2⟩, if_neg hnumber,
          Lexer.emit_advanceWhile, Nat.add_zero]

/-- A token that begins with a character, where nothing is open. -/
theorem dispatch_eq (hrest : l.cursor.rest = c :: cs) (hinitial : l.state = .initial) :
    dispatch c l l.cursor.position =
      l.emit l.cursor.position (scan (c :: cs)).1 (scan (c :: cs)).2 := by
  have hdollar : cs.head?.isSome = true ↔ cs ≠ [] := by
    cases cs <;> simp
  have htail := Lexer.rest_advance_of_cons hrest
  have hstate (kind : TokenKind) (hkind : LexState.initial.after kind = .initial) :
      consumeSingle l l.cursor.position kind = l.emit l.cursor.position 1 kind ∧
        consumeSingle l.advance l.cursor.position kind = l.emit l.cursor.position 2 kind :=
    ⟨Lexer.finish_advance _ hinitial hkind, Lexer.finish_advance (l := l.advance) _ hinitial hkind⟩
  simp only [dispatch, scan, Cursor.peekAt_one hrest, hdollar]
  split
  · rw [consumeComment_eq, Lexer.emit_advance, htail]
  · split
    · rw [consumeString_eq, Lexer.emit_advance, htail]
    · split
      · exact consumeSymbol_eq hrest hinitial _
      · split
        · exact (hstate _ rfl).2
        · split
          · exact (hstate _ rfl).1
          · split
            · exact (hstate _ rfl).2
            · split
              · rw [consumeIdentifier_eq, hrest]
              · split
                · rw [consumeNumber, Lexer.finish_eq _ rfl, emit_takeFractions, hrest,
                    Nat.add_zero]
                · exact (hstate _ rfl).1

end Markup.Lexis.Smalltalk
