import Markup.Proofs.Lexis.Runs

/-!
# Tokens and what follows them

The first token of a text is judged with what follows it, but one character after it is enough: what
comes after that character does not matter (`Language.first_append`). Only after a number a point is
not enough, because a digit may follow it. A token that has no end goes on with what follows as it
is resumed, if it is a comment or belongs to Smalltalk (`Language.first_append_of_open`).
-/

namespace Markup.Lexis

open Markup.Text

variable {us cs tail : List Char} {mark : Char} {n : Nat} {s : LexState} {opened : TokenKind}

/-- A prefix that ends inside a list is the same whatever follows the list. -/
theorem takeWhile_append_of_lt {p : Char → Bool} (h : (cs.takeWhile p).length < cs.length)
    (tail : List Char) : (cs ++ tail).takeWhile p = cs.takeWhile p := by
  rw [List.takeWhile_append, if_neg (Nat.ne_of_lt h)]

/-- A body that does not take all characters has an end. -/
theorem BodyFits.closed {body : Nat × Bool} (h : BodyFits us body) (hlt : body.1 < us.length) :
    body.2 = true := by
  rw [← Bool.not_eq_false]
  intro hopen
  exact absurd (h.whole hopen) (Nat.ne_of_lt hlt)

/-- A constant is open unless it was closed. -/
theorem constantKind_eq_openConstant {closed : Bool} :
    constantKind closed = .openConstant ↔ closed = false := by
  cases closed <;> decide

/-- A comment is open unless it was closed. -/
theorem commentKind_eq_openComment {closed : Bool} :
    commentKind closed = .openComment ↔ closed = false := by
  cases closed <;> decide

/-! ## The C family -/

namespace CDialect

/-- What follows the end of a literal does not matter to it. -/
theorem literalBody_of_closed (h : (literalBody mark us).2 = true) (tail : List Char) :
    literalBody mark (us ++ tail) = literalBody mark us := by
  fun_induction literalBody mark us with
  | case1 => cases h
  | case2 rest n closed hbody ih =>
    have hrest := ih (by rw [hbody]; exact h)
    show literalBody mark ('\\' :: '\r' :: '\n' :: (rest ++ tail)) = _
    rw [literalBody.eq_2, hrest, hbody]
  | case3 c rest hpair n closed hbody ih =>
    have hrest := ih (by rw [hbody]; exact h)
    rw [List.cons_append, List.cons_append, literalBody_escape, hrest, hbody]
    rintro ⟨rfl, hfeed⟩
    cases rest with
    | nil =>
      -- a literal that is at its end has no end
      cases hbody
      cases h
    | cons x rest =>
      cases hfeed
      exact hpair rest rfl rfl
  | case4 => cases h
  | case5 us _ hne hlast =>
    have hescape : mark ≠ '\\' := ne_backslash hne hlast
    rw [List.cons_append, literalBody_cons hescape, if_pos rfl]
  | case6 c us _ hne hlast hmark hline =>
    have hescape : c ≠ '\\' := ne_backslash hne hlast
    rw [List.cons_append, literalBody_cons hescape, if_neg hmark, if_pos hline]
  | case7 c us _ hne hlast hmark hline n closed hbody ih =>
    have hescape : c ≠ '\\' := ne_backslash hne hlast
    have hrest := ih (by rw [hbody]; exact h)
    rw [List.cons_append, literalBody_cons hescape, if_neg hmark, if_neg hline, hrest, hbody]

/-- One character after the first token is enough. -/
theorem scan_append (dialect : CDialect) (h : (dialect.scan cs).1 < cs.length)
    (tail : List Char) : dialect.scan (cs ++ tail) = dialect.scan cs := by
  match cs, h with
  | [], h => cases h
  | [c], h =>
    have hpos := dialect.scan_pos (List.cons_ne_nil c [])
    simp only [List.length_singleton] at h
    omega
  | c :: x :: more, h =>
    have hhead : (x :: (more ++ tail)).head? = (x :: more).head? := rfl
    have hwhile {p : Char → Bool}
        (hp : ((c :: x :: more).takeWhile p).length < (c :: x :: more).length) :
        (c :: x :: (more ++ tail)).takeWhile p = (c :: x :: more).takeWhile p :=
      takeWhile_append_of_lt hp tail
    simp only [List.cons_append, scan, hhead, List.tail_cons] at h ⊢
    split
    · rename_i hline
      rw [if_pos hline] at h
      rw [hwhile h]
    · rename_i hline
      rw [if_neg hline] at h
      split
      · rename_i hcomment
        rw [if_pos hcomment] at h
        have hlt : (commentBody more).1 < more.length := by
          simp only [List.length_cons] at h
          omega
        rw [commentBody_of_closed ((commentBody_fits more).closed hlt)]
      · rename_i hcomment
        rw [if_neg hcomment] at h
        split
        · rename_i hmark
          rw [if_pos hmark] at h
          have hlt : (literalBody c (x :: more)).1 < (x :: more).length :=
            Nat.lt_of_succ_lt_succ h
          rw [← List.cons_append, literalBody_of_closed ((literalBody_fits c _).closed hlt)]
        · rename_i hmark
          rw [if_neg hmark] at h
          split
          · rename_i hword
            rw [if_pos hword] at h
            rw [hwhile h]
          · rename_i hword
            rw [if_neg hword] at h
            split
            · rename_i hdigit
              rw [if_pos hdigit] at h
              rw [hwhile h]
            · rfl

/-- A comment without an end begins with `/*`. -/
theorem exists_of_scan_openComment (dialect : CDialect) (h : dialect.scan cs = (n, .openComment)) :
    ∃ rest, cs = '/' :: '*' :: rest ∧ (commentBody rest).2 = false := by
  cases cs with
  | nil => cases h
  | cons c rest =>
    simp only [scan] at h
    split at h
    · cases h
    · split at h
      · rename_i hcomment
        obtain ⟨rfl, hstar⟩ := hcomment
        obtain ⟨more, rfl⟩ := List.head?_eq_some_iff.1 hstar
        exact ⟨more, rfl, commentKind_eq_openComment.1 (Prod.mk.inj h).2⟩
      · split at h
        · exact absurd (Prod.mk.inj h).2 (constantKind_ne (by decide) _)
        · split at h
          · unfold wordKind at h
            split at h <;> cases h
          · split at h <;> cases h

end CDialect

/-! ## Smalltalk -/

namespace Smalltalk

/-- One character after a string is enough. -/
theorem stringBody_append (h : (stringBody us).1 < us.length) (tail : List Char) :
    stringBody (us ++ tail) = stringBody us := by
  fun_induction stringBody us with
  | case1 => cases h
  | case2 rest n closed hbody ih =>
    have hlt : n < rest.length := by
      simp only [List.length_cons] at h
      omega
    have hrest := ih (by rw [hbody]; exact hlt)
    show ((stringBody (rest ++ tail)).1 + 2, (stringBody (rest ++ tail)).2) = _
    rw [hrest, hbody]
  | case3 rest hne =>
    refine stringBody_mark ?_
    cases rest with
    | nil => exact absurd h (Nat.lt_irrefl 1)
    | cons c rest =>
      intro hhead
      cases hhead
      exact hne rest rfl
  | case4 c rest _ hne n closed hbody ih =>
    have hrest := ih (by rw [hbody]; exact Nat.lt_of_succ_lt_succ h)
    rw [List.cons_append, stringBody_cons hne, hrest, hbody]

/-- After a number one character is enough if it is no point. -/
theorem numberLength_append (h : numberLength cs < cs.length)
    (hpoint : cs.drop (numberLength cs) ≠ ['.']) (tail : List Char) :
    numberLength (cs ++ tail) = numberLength cs := by
  induction cs with
  | nil => cases h
  | cons c rest ih =>
    cases rest with
    | nil =>
      -- the number is empty here, and no point could begin one
      have hc : ¬c.isAlphanum = true := by
        intro hc
        simp [numberLength, hc] at h
      have hne : c ≠ '.' := by
        rintro rfl
        exact hpoint rfl
      simp [numberLength, hc, hne]
    | cons x more =>
      rw [List.cons_append, numberLength]
      rw [numberLength] at h hpoint ⊢
      have hhead : (x :: more ++ tail).head? = (x :: more).head? := rfl
      rw [hhead]
      split
      · rename_i hc
        rw [if_pos hc] at h hpoint
        rw [ih (Nat.lt_of_succ_lt_succ h) hpoint]
      · rfl

/-- One character after a symbol is enough. -/
theorem symbolBody_append (h : (symbolBody cs).1 < cs.length) (tail : List Char) :
    symbolBody (cs ++ tail) = symbolBody cs := by
  cases cs with
  | nil => cases h
  | cons c rest =>
    have hwhile {p : Char → Bool} (hp : ((c :: rest).takeWhile p).length < (c :: rest).length) :
        (c :: (rest ++ tail)).takeWhile p = (c :: rest).takeWhile p :=
      takeWhile_append_of_lt hp tail
    simp only [List.cons_append, symbolBody] at h ⊢
    split
    · rename_i hmark
      rw [if_pos hmark] at h
      rw [stringBody_append (Nat.lt_of_succ_lt_succ h)]
    · rename_i hmark
      rw [if_neg hmark] at h
      split
      · rename_i hletter
        rw [if_pos hletter] at h
        rw [hwhile h]
      · rename_i hletter
        rw [if_neg hletter] at h
        split
        · rename_i hselector
          rw [if_pos hselector] at h
          rw [hwhile h]
        · rfl

/-- One character after the first token is enough, unless it is a point after a number. -/
theorem scan_append (h : (scan cs).1 < cs.length) (hpoint : cs.drop (scan cs).1 ≠ ['.'])
    (tail : List Char) : scan (cs ++ tail) = scan cs := by
  match cs, h, hpoint with
  | [], h, _ => cases h
  | [c], h, _ =>
    have hpos := scan_pos (List.cons_ne_nil c [])
    simp only [List.length_singleton] at h
    omega
  | c :: x :: more, h, hpoint =>
    have hhead : (x :: (more ++ tail)).head? = (x :: more).head? := rfl
    simp only [List.cons_append, scan, hhead, ne_eq, reduceCtorEq, not_false_eq_true, and_true]
      at h hpoint ⊢
    split
    · rename_i hcomment
      rw [if_pos hcomment] at h
      have hlt : (commentBody (x :: more)).1 < (x :: more).length := Nat.lt_of_succ_lt_succ h
      rw [← List.cons_append, commentBody_of_closed ((commentBody_fits _).closed hlt)]
    · rename_i hcomment
      rw [if_neg hcomment] at h hpoint
      split
      · rename_i hstring
        rw [if_pos hstring] at h
        rw [← List.cons_append, stringBody_append (Nat.lt_of_succ_lt_succ h)]
      · rename_i hstring
        rw [if_neg hstring] at h hpoint
        split
        · rename_i hsymbol
          rw [if_pos hsymbol] at h
          rw [← List.cons_append, symbolBody_append (Nat.lt_of_succ_lt_succ h)]
        · rename_i hsymbol
          rw [if_neg hsymbol] at h hpoint
          split
          · rfl
          · rename_i hdollar
            rw [if_neg hdollar] at h hpoint
            split
            · rfl
            · rename_i hreserved
              rw [if_neg hreserved] at h hpoint
              split
              · rfl
              · rename_i hassign
                rw [if_neg hassign] at h hpoint
                split
                · rename_i hletter
                  rw [if_pos hletter] at h
                  rw [← List.cons_append, ← List.cons_append, takeWhile_append_of_lt h]
                · rename_i hletter
                  rw [if_neg hletter] at h hpoint
                  split
                  · rename_i hdigit
                    rw [if_pos hdigit] at h hpoint
                    rw [← List.cons_append, ← List.cons_append, numberLength_append h hpoint]
                  · rfl

/-- No comment begins in a symbol. -/
theorem symbolBody_ne_openComment (cs : List Char) : (symbolBody cs).2 ≠ .openComment := by
  unfold symbolBody
  split
  · exact nofun
  · split
    · exact constantKind_ne (by decide) _
    · split
      · exact nofun
      · split <;> exact nofun

/-- A symbol without an end is a string. -/
theorem exists_of_symbolBody_openConstant (h : (symbolBody cs).2 = .openConstant) :
    ∃ rest, cs = '\'' :: rest ∧ (stringBody rest).2 = false := by
  unfold symbolBody at h
  split at h
  · cases h
  · rename_i c rest
    split at h
    · rename_i hmark
      exact ⟨rest, by rw [hmark], constantKind_eq_openConstant.1 h⟩
    · split at h
      · cases h
      · split at h <;> cases h

/-- What has no end is a comment, a string or a symbol that is one. -/
theorem exists_of_scan_open (h : scan cs = (n, opened)) (hopened : opened.isOpen = true) :
    (opened = .openComment ∧ ∃ rest, cs = '"' :: rest ∧ (commentBody rest).2 = false) ∨
      (opened = .openConstant ∧ ∃ opening rest, (opening = ['\''] ∨ opening = ['#', '\'']) ∧
        cs = opening ++ rest ∧ (stringBody rest).2 = false) := by
  cases cs with
  | nil =>
    cases h
    cases hopened
  | cons c rest =>
    simp only [scan] at h
    split at h
    · rename_i hmark
      obtain ⟨-, rfl⟩ := Prod.mk.inj h
      rw [isOpen_commentKind, Bool.not_eq_true'] at hopened
      rw [hopened, hmark]
      exact .inl ⟨rfl, rest, rfl, hopened⟩
    · split at h
      · rename_i hmark
        obtain ⟨-, rfl⟩ := Prod.mk.inj h
        rw [isOpen_constantKind, Bool.not_eq_true'] at hopened
        rw [hopened, hmark]
        exact .inr ⟨rfl, ['\''], rest, .inl rfl, rfl, hopened⟩
      · split at h
        · rename_i hmark
          obtain ⟨-, rfl⟩ := Prod.mk.inj h
          have hconstant : (symbolBody rest).2 = .openConstant := by
            cases hkind : (symbolBody rest).2 with
            | openConstant => rfl
            | openComment => exact absurd hkind (symbolBody_ne_openComment rest)
            | _ => simp [hkind, TokenKind.isOpen] at hopened
          obtain ⟨more, rfl, hopen⟩ := exists_of_symbolBody_openConstant hconstant
          rw [hmark]
          exact .inr ⟨hconstant, ['#', '\''], more, .inr rfl, rfl, hopen⟩
        · -- all other tokens have an end
          have hclosed : opened.isOpen = false := by
            unfold wordKind at h
            repeat' split at h
            all_goals
              obtain ⟨-, rfl⟩ := Prod.mk.inj h
              rfl
          rw [hclosed] at hopened
          cases hopened

end Smalltalk

/-! ## All languages -/

/-- Whether a comment or a literal that is open in a state between two parts of a text goes on with
the second part as it would if the text were read in one. -/
def Language.Resumes (language : Language) (s : LexState) (before after : List Char) : Prop :=
  match language with
  | cFamily _ => s.inComment = true ∧ ¬(before.getLast? = some '*' ∧ after.head? = some '/')
  | smalltalk => s.isOpen = true

namespace Language

variable {language : Language}

/-- Only what is open is resumed. -/
theorem Resumes.isOpen {before after : List Char} (h : language.Resumes s before after) :
    s.isOpen = true := by
  cases language with
  | cFamily dialect => simp [LexState.isOpen, h.1]
  | smalltalk => exact h

/-- Of the first part only its last character matters. -/
theorem Resumes.of_append_left {before after : List Char} (earlier : List Char)
    (h : language.Resumes s (earlier ++ before) after) : language.Resumes s before after := by
  cases language with
  | cFamily dialect =>
    refine ⟨h.1, fun ⟨hlast, hhead⟩ => h.2 ⟨?_, hhead⟩⟩
    rw [List.getLast?_append, hlast]
    rfl
  | smalltalk => exact h

/-- Of the second part only its first character matters. -/
theorem Resumes.of_append_right {before after : List Char} (later : List Char)
    (h : language.Resumes s before (after ++ later)) : language.Resumes s before after := by
  cases language with
  | cFamily dialect =>
    refine ⟨h.1, fun ⟨hlast, hhead⟩ => h.2 ⟨hlast, ?_⟩⟩
    rw [List.head?_append, hhead]
    rfl
  | smalltalk => exact h

/-- One character after the first token is enough, unless it is a point. -/
theorem first_append (language : Language) (h : (language.first s cs).1 < cs.length)
    (hpoint : s.isOpen = false → cs.drop (language.first s cs).1 ≠ ['.']) (tail : List Char) :
    language.first s (cs ++ tail) = language.first s cs := by
  unfold first at h hpoint ⊢
  split
  · rename_i hcomment
    rw [if_pos hcomment] at h
    cases language with
    | cFamily dialect =>
      have hclosed := (CDialect.commentBody_fits cs).closed h
      simp only [resumeComment, CDialect.commentBody_of_closed hclosed]
    | smalltalk =>
      have hclosed := (Smalltalk.commentBody_fits cs).closed h
      simp only [resumeComment, Smalltalk.commentBody_of_closed hclosed]
  · rename_i hcomment
    rw [if_neg hcomment] at h hpoint
    split
    · rename_i hconstant
      rw [if_pos hconstant] at h
      cases language with
      | cFamily dialect =>
        have hclosed := (CDialect.literalBody_fits '"' cs).closed h
        simp only [resumeConstant, CDialect.literalBody_of_closed hclosed]
      | smalltalk => simp only [resumeConstant, Smalltalk.stringBody_append h]
    · rename_i hconstant
      rw [if_neg hconstant] at h hpoint
      cases language with
      | cFamily dialect => exact dialect.scan_append h tail
      | smalltalk =>
        refine Smalltalk.scan_append h (hpoint ?_) tail
        simp [LexState.isOpen, hcomment, hconstant]

/-- What follows the end of a comment that has been open does not matter to it. -/
theorem resumeComment_append (language : Language) (h : (language.resumeComment cs).2 = .comment)
    (tail : List Char) : language.resumeComment (cs ++ tail) = language.resumeComment cs := by
  have hclosed {closed : Bool} (hkind : commentKind closed = .comment) : closed = true := by
    cases closed with
    | true => rfl
    | false => cases hkind
  cases language with
  | cFamily dialect =>
    simp only [resumeComment, CDialect.commentBody_of_closed (hclosed h)]
  | smalltalk =>
    simp only [resumeComment, Smalltalk.commentBody_of_closed (hclosed h)]

/-- In a comment the comment is resumed. -/
theorem first_of_inComment (language : Language) (h : s.inComment = true) :
    language.first s cs = language.resumeComment cs :=
  if_pos h

/-- In a constant, and in no comment, the constant is resumed. -/
theorem first_of_inConstant (language : Language) (h : s.inComment = false)
    (hconstant : s.inConstant = true) : language.first s cs = language.resumeConstant cs := by
  rw [first, h, if_neg Bool.false_ne_true, if_pos hconstant]

/-- Where nothing is open a new token is scanned. -/
theorem first_of_closed (language : Language) (h : s.isOpen = false) :
    language.first s cs = language.scan cs := by
  obtain ⟨hcomment, hconstant⟩ := Bool.or_eq_false_iff.1 h
  rw [first, hcomment, hconstant]
  rfl

/-- A comment that has been open and has no end goes on with what follows. -/
theorem resumeComment_append_of_open (h : (language.resumeComment cs).2 = .openComment)
    (hresumes : language.Resumes s cs tail) :
    language.resumeComment (cs ++ tail) =
      (cs.length + (language.resumeComment tail).1, (language.resumeComment tail).2) := by
  have hopen := commentKind_eq_openComment.1 h
  cases language with
  | cFamily dialect => simp only [resumeComment, CDialect.commentBody_of_open hopen hresumes.2]
  | smalltalk => simp only [resumeComment, Smalltalk.commentBody_of_open hopen]

/-- A literal that has been open and has no end goes on with what follows. -/
theorem resumeConstant_append_of_open (h : (language.resumeConstant cs).2 = .openConstant)
    (hs : s.inComment = false) (hresumes : language.Resumes s cs tail) :
    language.resumeConstant (cs ++ tail) =
      (cs.length + (language.resumeConstant tail).1, (language.resumeConstant tail).2) := by
  have hopen := constantKind_eq_openConstant.1 h
  cases language with
  | cFamily dialect =>
    have hcomment := hresumes.1
    rw [hs] at hcomment
    cases hcomment
  | smalltalk => simp only [resumeConstant, Smalltalk.stringBody_of_open hopen]

/-- A token without an end that begins where nothing is open goes on with what follows. -/
theorem scan_append_of_open (h : language.scan cs = (n, opened)) (hopened : opened.isOpen = true)
    (hs : s.inComment = false) (hresumes : language.Resumes (s.after opened) cs tail) :
    language.scan (cs ++ tail) =
      (cs.length + (language.first (s.after opened) tail).1,
        (language.first (s.after opened) tail).2) := by
  cases language with
  | cFamily dialect =>
    have hkind : opened = .openComment := by
      have hafter : (s.after opened).inComment = true := hresumes.1
      cases opened <;> simp [LexState.after, hs] at hafter ⊢
    subst hkind
    obtain ⟨rest, rfl, hopen⟩ := dialect.exists_of_scan_openComment h
    have hboundary : ¬(rest.getLast? = some '*' ∧ tail.head? = some '/') := by
      rintro ⟨hlast, hhead⟩
      refine hresumes.2 ⟨?_, hhead⟩
      rw [List.getLast?_cons, List.getLast?_cons, hlast]
      rfl
    rw [first_of_inComment _ rfl]
    show ((CDialect.commentBody (rest ++ tail)).1 + 2,
      commentKind (CDialect.commentBody (rest ++ tail)).2) = _
    rw [CDialect.commentBody_of_open hopen hboundary, List.length_cons, List.length_cons]
    simp only [resumeComment, Prod.mk.injEq, and_true]
    omega
  | smalltalk =>
    rcases Smalltalk.exists_of_scan_open h hopened with
      ⟨rfl, rest, rfl, hopen⟩ | ⟨rfl, opening, rest, hopening, rfl, hopen⟩
    · rw [first_of_inComment smalltalk rfl]
      show ((Smalltalk.commentBody (rest ++ tail)).1 + 1,
        commentKind (Smalltalk.commentBody (rest ++ tail)).2) = _
      rw [Smalltalk.commentBody_of_open hopen, List.length_cons, Nat.add_right_comm]
      rfl
    · rw [first_of_inConstant (s := s.after .openConstant) smalltalk hs rfl]
      have hscan : scan smalltalk (opening ++ (rest ++ tail)) =
          ((Smalltalk.stringBody (rest ++ tail)).1 + opening.length,
            constantKind (Smalltalk.stringBody (rest ++ tail)).2) := by
        rcases hopening with rfl | rfl <;> rfl
      rw [List.append_assoc, hscan, Smalltalk.stringBody_of_open hopen, List.length_append]
      simp only [resumeConstant, Prod.mk.injEq, and_true]
      omega

/-- A token without an end goes on with what follows as it is resumed. -/
theorem first_append_of_open (h : language.first s cs = (n, opened))
    (hopened : opened.isOpen = true) (hresumes : language.Resumes (s.after opened) cs tail) :
    language.first s (cs ++ tail) =
      (cs.length + (language.first (s.after opened) tail).1,
        (language.first (s.after opened) tail).2) := by
  by_cases hcomment : s.inComment = true
  · rw [first_of_inComment language hcomment] at h ⊢
    have hkind : opened = .openComment := by
      obtain ⟨closed, hkind⟩ := exists_resumeComment language cs
      rw [h] at hkind
      subst hkind
      exact commentKind_eq_openComment.2 (by simpa using hopened)
    subst hkind
    rw [resumeComment_append_of_open (by rw [h]) hresumes, first_of_inComment language rfl]
  rw [Bool.not_eq_true] at hcomment
  by_cases hconstant : s.inConstant = true
  · rw [first_of_inConstant language hcomment hconstant] at h ⊢
    have hkind : opened = .openConstant := by
      obtain ⟨closed, hkind⟩ := exists_resumeConstant language cs
      rw [h] at hkind
      subst hkind
      exact constantKind_eq_openConstant.2 (by simpa using hopened)
    subst hkind
    rw [resumeConstant_append_of_open (s := s.after .openConstant) (by rw [h]) hcomment hresumes,
      first_of_inConstant (s := s.after .openConstant) language hcomment rfl]
  · have hs : s.isOpen = false := by simp [LexState.isOpen, hcomment, hconstant]
    rw [first_of_closed language hs] at h ⊢
    exact scan_append_of_open h hopened hcomment hresumes

end Language

end Markup.Lexis
