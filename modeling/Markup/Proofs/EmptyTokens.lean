import Markup.Proofs.Coverage
import Markup.Proofs.Resumption

/-!
# Empty tokens

A token other than the last one of a range takes a character, with one exception: where a literal of
the C family is open and a line end comes next, the line end ends the literal, and what is left of
it is empty (`next_empty_at_line_end`). That happens only where a range resumes a literal, so such a
token is the first one of the range, or the second one after the rest of a comment. All other tokens
have characters (`start_lt_stop_iff`).
-/

namespace Markup.Lexis

open Markup.Text

variable {language : Language} {s : LexState} {cs : List Char}

/-- The rest of a literal takes nothing only before a line end. -/
theorem CDialect.literalBody_eq_zero_iff {mark : Char} (hmark : isLineEnd mark = false)
    (h : cs ≠ []) :
    (literalBody mark cs).1 = 0 ↔ ∃ c, cs.head? = some c ∧ isLineEnd c = true := by
  obtain ⟨c, rest, rfl⟩ := List.exists_cons_of_ne_nil h
  have hhead : (∃ x, (c :: rest).head? = some x ∧ isLineEnd x = true) ↔ isLineEnd c = true := by
    simp
  rw [hhead]
  by_cases hline : isLineEnd c = true
  · rw [literalBody_lineEnd hmark hline]
    simp [hline]
  · refine iff_of_false (Nat.ne_of_gt ?_) hline
    by_cases hescape : c = '\\'
    · subst hescape
      cases rest with
      | nil => exact Nat.zero_lt_one
      | cons x rest =>
        by_cases hpair : x = '\r' ∧ rest.head? = some '\n'
        · obtain ⟨rfl, hfeed⟩ := hpair
          obtain ⟨more, rfl⟩ := List.head?_eq_some_iff.1 hfeed
          exact Nat.zero_lt_succ _
        · rw [literalBody_escape hpair]
          exact Nat.zero_lt_succ _
    · rw [literalBody_cons hescape, if_neg hline]
      split <;> simp

namespace Scanner

/-- A literal of the C family is open, and a line end comes next. -/
structure AtCut (t : Scanner) : Prop where
  /-- Strings of Smalltalk go on over line ends. -/
  cFamily : t.language ≠ .smalltalk
  /-- A literal is open, and no comment is. -/
  literal : t.state = ⟨true, false⟩
  /-- A line end comes next. -/
  lineEnd : ∃ c, t.rest.head? = some c ∧ CDialect.isLineEnd c = true

/-- A first token without characters is the rest of a literal before a line end. -/
theorem first_eq_zero_iff {position : Nat} (h : cs ≠ []) :
    (language.first s cs).1 = 0 ↔ (mk language position cs s).AtCut := by
  have hpos (hs : s ≠ ⟨true, false⟩ ∨ language = .smalltalk) (hn : 0 < (language.first s cs).1) :
      (language.first s cs).1 = 0 ↔ (mk language position cs s).AtCut := by
    refine iff_of_false (Nat.ne_of_gt hn) fun hcut => ?_
    exact hs.elim (fun hs => hs hcut.literal) hcut.cFamily
  match s with
  | ⟨_, true⟩ =>
    refine hpos (.inl (by simp)) ?_
    rw [Language.first_of_inComment language rfl]
    exact resumeComment_pos language h
  | ⟨false, false⟩ =>
    refine hpos (.inl (by simp)) ?_
    rw [Language.first_of_closed language rfl]
    exact scan_pos language h
  | ⟨true, false⟩ =>
    cases language with
    | smalltalk =>
      refine hpos (.inr rfl) ?_
      rw [Language.first_of_inConstant _ rfl rfl]
      exact Smalltalk.stringBody_pos h
    | cFamily dialect =>
      rw [Language.first_of_inConstant _ rfl rfl]
      refine (CDialect.literalBody_eq_zero_iff (by decide) h).trans ⟨fun hline => ?_, ?_⟩
      · exact ⟨nofun, rfl, hline⟩
      · exact fun hcut => hcut.lineEnd

/-- A token has bytes if it takes a character and there is one. -/
theorem start_lt_stop_emit {position n : Nat} {kind : TokenKind} :
    ((mk language position cs s).emit n kind).1.start <
        ((mk language position cs s).emit n kind).1.stop ↔ n ≠ 0 ∧ cs ≠ [] := by
  have hlength : byteLength (cs.take n) ≠ 0 ↔ n ≠ 0 ∧ cs ≠ [] := by
    rw [← not_or, ← List.take_eq_nil_iff]
    exact not_congr ⟨byteLength_eq_zero, fun h => by rw [h]; rfl⟩
  rw [← hlength]
  show position < position + byteLength (cs.take n) ↔ _
  omega

/-- The next token is the first of the characters after some blanks, and there are no blanks before
it where something is open. -/
theorem exists_next (language : Language) (position : Nat) (s : LexState) (hcs : cs ≠ []) :
    ∃ position' cs', (s.isOpen = true → position' = position ∧ cs' = cs) ∧
      (mk language position cs s).next =
        (mk language position' cs' s).emit (language.first s cs').1 (language.first s cs').2 := by
  by_cases hs : s.isOpen = false
  · refine ⟨position + byteLength (cs.takeWhile isBlank), cs.dropWhile isBlank, fun hopen => ?_, ?_⟩
    · rw [hs] at hopen
      cases hopen
    · rw [next_of_closed hs, Language.first_of_closed language hs]
  · exact ⟨position, cs, fun _ => ⟨rfl, rfl⟩, next_of_first hcs fun hclosed => absurd hclosed hs⟩

/-- The next token has characters, unless it is the end or the rest of a literal before a line
end. -/
theorem start_lt_stop_next_iff (t : Scanner) :
    t.next.1.start < t.next.1.stop ↔ t.next.1.kind ≠ .endOfInput ∧ ¬t.AtCut := by
  obtain ⟨language, position, cs, s⟩ := t
  by_cases hcs : cs = []
  · subst hcs
    exact iff_of_false (Nat.lt_irrefl _) fun h => h.1 rfl
  obtain ⟨position', cs', hopen, hnext⟩ := exists_next language position s hcs
  have hcut : (mk language position cs s).AtCut ↔ (mk language position' cs' s).AtCut := by
    by_cases hs : s.isOpen = true
    · obtain ⟨rfl, rfl⟩ := hopen hs
      rfl
    · refine iff_of_false ?_ ?_ <;>
      · rintro ⟨-, rfl, -⟩
        exact hs rfl
  rw [hnext, start_lt_stop_emit, hcut]
  show _ ↔ (language.first s cs').2 ≠ .endOfInput ∧ _
  by_cases hcs' : cs' = []
  · -- there were only blanks
    subst hcs'
    have hs : s.isOpen = false := by
      rw [← Bool.not_eq_true]
      exact fun hs => hcs (hopen hs).2.symm
    rw [Language.first_of_closed language hs, scan_nil]
    exact iff_of_false (fun h => h.2 rfl) fun h => h.1 rfl
  · rw [← first_eq_zero_iff hcs']
    exact ⟨fun h => ⟨(language.first_fits s cs').kind hcs', h.1⟩, fun h => ⟨h.2, hcs'⟩⟩

/-! ## Runs -/

/-- Where something is left and open after a token, the token is the rest of a comment within a
literal. -/
theorem state_of_isOpen_next {t : Scanner} (hrest : t.next.2.rest ≠ [])
    (hopen : t.next.2.state.isOpen = true) :
    t.state = ⟨true, true⟩ ∧ t.next.2.state = ⟨true, false⟩ := by
  obtain ⟨language, position, cs, s⟩ := t
  have hcs : cs ≠ [] := by
    rintro rfl
    exact hrest rfl
  obtain ⟨position', cs', -, hnext⟩ := exists_next language position s hcs
  rw [hnext] at hrest hopen ⊢
  have hkind : (language.first s cs').2.isOpen = false := by
    rw [← Bool.not_eq_true]
    intro hkind
    refine hrest (List.drop_eq_nil_iff.2 (Nat.le_of_eq ?_))
    exact ((language.first_fits s cs').whole hkind).symm
  have hfirst : language.first s cs' = ((language.first s cs').1, (language.first s cs').2) := rfl
  obtain ⟨hs, hcomment⟩ := eq_of_isOpen_after hfirst hkind hopen
  refine ⟨hs, ?_⟩
  show s.after (language.first s cs').2 = _
  rw [hcomment, hs]
  rfl

/-- Where something is left and open after some tokens, it is one token, the rest of a comment
within a literal. -/
theorem eq_zero_of_isOpen_afterTokens {t : Scanner} {n : Nat}
    (hrest : (t.afterTokens (n + 1)).rest ≠ [])
    (hopen : (t.afterTokens (n + 1)).state.isOpen = true) :
    n = 0 ∧ t.state = ⟨true, true⟩ := by
  induction n generalizing t with
  | zero => exact ⟨rfl, (state_of_isOpen_next hrest hopen).1⟩
  | succ n ih =>
    -- a comment within a literal is not open after the token before it
    obtain ⟨rfl, hboth⟩ := ih hrest hopen
    have hnext : t.next.2.rest ≠ [] := by
      intro hnil
      refine hrest ?_
      show t.next.2.next.2.rest = []
      rw [next, if_pos hnil]
      exact hnil
    obtain ⟨-, hliteral⟩ := state_of_isOpen_next hnext (by rw [hboth]; rfl)
    rw [hboth] at hliteral
    cases hliteral

/-- After any number of tokens the next one has characters, unless it is the end or the rest of a
literal before a line end, and that is one of the first two. -/
theorem start_lt_stop_afterTokens_iff (t : Scanner) (n : Nat) :
    (t.afterTokens n).next.1.start < (t.afterTokens n).next.1.stop ↔
      (t.afterTokens n).next.1.kind ≠ .endOfInput ∧
        ¬((t.afterTokens n).AtCut ∧ (n = 0 ∨ n = 1 ∧ t.state = ⟨true, true⟩)) := by
  rw [start_lt_stop_next_iff]
  refine and_congr_right' (not_congr (iff_self_and.2 fun hcut => ?_))
  cases n with
  | zero => exact .inl rfl
  | succ n =>
    obtain ⟨c, hc, -⟩ := hcut.lineEnd
    have hrest : (t.afterTokens (n + 1)).rest ≠ [] := by
      intro hnil
      rw [hnil] at hc
      cases hc
    have hopen : (t.afterTokens (n + 1)).state.isOpen = true := by
      rw [hcut.literal]
      rfl
    obtain ⟨rfl, hboth⟩ := eq_zero_of_isOpen_afterTokens hrest hopen
    exact .inr ⟨rfl, hboth⟩

end Scanner

namespace Tokenizer

/-- A literal of the C family is open, and a line end comes next in the range. -/
def AtCut (t : Tokenizer) : Prop :=
  t.scanner.AtCut

/-- After any number of tokens the next one has characters, unless it is the end of the range or the
rest of a literal before a line end. That is the first token, or the second after the rest of a
comment within a literal. -/
theorem start_lt_stop_iff (t : Tokenizer) (n : Nat) :
    (t.afterTokens n).next.1.start < (t.afterTokens n).next.1.stop ↔
      (t.afterTokens n).next.1.kind ≠ .endOfInput ∧
        ¬((t.afterTokens n).AtCut ∧ (n = 0 ∨ n = 1 ∧ t.state = ⟨true, true⟩)) := by
  have hscanner := t.scanner.start_lt_stop_afterTokens_iff n
  rwa [← t.scanner_afterTokens, (t.afterTokens n).next_scanner] at hscanner

/-- In C the rest of a literal before a line end is a token without characters. -/
theorem next_empty_at_line_end :
    (ofRange (.cFamily .ansiC) "\n" 0 1 ⟨true, false⟩).next.1 = ⟨.constant, 0, 0⟩ ∧
      (ofRange (.cFamily .ansiC) "\n" 0 1 ⟨true, false⟩).next.1.kind ≠ .endOfInput ∧
      ¬(ofRange (.cFamily .ansiC) "\n" 0 1 ⟨true, false⟩).next.1.start <
        (ofRange (.cFamily .ansiC) "\n" 0 1 ⟨true, false⟩).next.1.stop := by
  have hscanner := (ofRange (.cFamily .ansiC) "\n" 0 1 ⟨true, false⟩).next_scanner
  have htoken : (ofRange (.cFamily .ansiC) "\n" 0 1 ⟨true, false⟩).scanner.next.1 =
      ⟨.constant, 0, 0⟩ := by
    decide +kernel
  rw [hscanner] at htoken
  rw [htoken]
  exact ⟨rfl, nofun, Nat.lt_irrefl 0⟩

end Tokenizer

end Markup.Lexis
