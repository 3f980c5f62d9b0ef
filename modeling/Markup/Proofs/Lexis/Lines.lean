import Markup.Proofs.Lexis.LineTokens
import Markup.Proofs.Lexis.Ranges

/-!
# Lexing line by line

A run over a text that begins with a line falls into a run over the line and a run over the rest,
which show each character in the class that it has in the whole text (`Run.split_line`): where a
token goes on after the line, the run over the rest resumes it. From this the pieces line by line
show each character in the class that it has in the whole text, if the literals settle with it
(`exists_pieces_of_lines`).
-/

namespace Markup.Lexis

open Markup.Text

variable {language : Language} {s s' s₁ : LexState} {line eol rest cs before : List Char}
  {piece : Piece} {pieces first more : List Piece} {kind opened : TokenKind}

/-! ## States in which something is open -/

/-- A comment that stays open leaves the state of a comment. -/
theorem LexState.after_openComment (h : s.inComment = true) : s.after .openComment = s := by
  obtain ⟨inConstant, inComment⟩ := s
  cases h
  rfl

/-- A constant that stays open leaves the state of a constant. -/
theorem LexState.after_openConstant (h : s.inConstant = true) : s.after .openConstant = s := by
  obtain ⟨inConstant, inComment⟩ := s
  cases h
  rfl

/-- A complete constant leaves a state in which none was open. -/
theorem LexState.after_constant (h : s.inConstant = false) : s.after .constant = s := by
  obtain ⟨inConstant, inComment⟩ := s
  cases h
  rfl

/-- If something is open, only an open comment goes on as one. -/
theorem inComment_of_first {n : Nat} (hs : s.isOpen = true)
    (h : language.first s cs = (n, .openComment)) : s.inComment = true := by
  by_cases hcomment : s.inComment = true
  · exact hcomment
  · have hconstant : s.inConstant = true := (Bool.or_eq_true _ _ ▸ hs).resolve_left hcomment
    obtain ⟨closed, hkind⟩ := exists_resumeConstant language cs
    rw [Language.first, if_neg hcomment, if_pos hconstant] at h
    rw [h] at hkind
    cases closed <;> cases hkind

/-! ## Literals that settle -/

/-- The state after a piece. -/
def Piece.next (piece : Piece) (s : LexState) : LexState :=
  piece.kind?.elim s s.after

/-- Whether the literals of a run settle with the character that comes after `before`. -/
def Settled (language : Language) : LexState → List Char → List Piece → Prop
  | _, _, [] => True
  | s, before, piece :: pieces =>
    (∀ kind, piece.kind? = some kind →
        language.Settles s before piece.characters (charactersOf pieces) kind) ∧
      (piece.characters.length ≤ before.length →
        Settled language (piece.next s) (before.drop piece.characters.length) pieces)

/-- A piece that the character comes after. -/
theorem Settled.tail {piece : Piece}
    (h : Settled language s (piece.characters ++ before) (piece :: pieces)) :
    Settled language (piece.next s) before pieces := by
  have htail := h.2 (by rw [List.length_append]; exact Nat.le_add_right _ _)
  rwa [List.drop_left] at htail

/-- A piece settles if it settles itself and, when the character comes after it, what follows it
does. -/
theorem Settled.of_tail (piece : Piece) (hbefore : before <+: piece.characters ++ cs)
    (hpiece : ∀ kind, piece.kind? = some kind →
      language.Settles s before piece.characters (charactersOf pieces) kind)
    (htail : ∀ later, before = piece.characters ++ later → later <+: cs →
      Settled language (piece.next s) later pieces) :
    Settled language s before (piece :: pieces) := by
  refine ⟨hpiece, fun hle => ?_⟩
  obtain ⟨later, rfl⟩ := List.prefix_of_prefix_length_le (List.prefix_append _ _) hbefore hle
  rw [List.drop_left]
  exact htail later rfl ((List.prefix_append_right_inj _).1 hbefore)

/-- Blanks that the character comes after. -/
theorem Settled.of_blanks {blanks : List Char}
    (h : Settled language s (blanks ++ before) (blanks.map (⟨[·], none⟩) ++ more)) :
    Settled language s before more := by
  induction blanks with
  | nil => exact h
  | cons c blanks ih =>
    have hcons : Settled language s ([c] ++ (blanks ++ before))
        (⟨[c], none⟩ :: (blanks.map (⟨[·], none⟩) ++ more)) := h
    exact ih hcons.tail

/-- Blanks that are skipped one by one are the characters of their pieces. -/
theorem charactersOf_blanks (blanks : List Char) :
    charactersOf (blanks.map (⟨[·], none⟩)) = blanks := by
  induction blanks with
  | nil => rfl
  | cons c blanks ih => exact congrArg (c :: ·) ih

/-- Line ends are blank. -/
theorem LineBreak.isBlank_of_mem (h : LineBreak line eol rest) {c : Char} (hc : c ∈ eol) :
    isBlank c = true := by
  rcases isLineEnd_cases (h.isLineEnd_of_mem hc) with rfl | rfl <;> decide

/-! ## Parts of a run -/

/-- Blanks are passed over where nothing is open. -/
theorem Run.of_blanks {blanks : List Char} (h : Run language s (blanks ++ cs) pieces s')
    (hs : s.isOpen = false) (hblanks : ∀ c ∈ blanks, isBlank c = true) :
    ∃ more, Run language s cs more s' ∧ pieces = blanks.map (⟨[·], none⟩) ++ more := by
  induction blanks generalizing pieces with
  | nil => exact ⟨pieces, h, rfl⟩
  | cons c blanks ih =>
    have hc := hblanks c List.mem_cons_self
    generalize hword : c :: blanks ++ cs = word at h
    cases h with
    | nil => cases hword
    | blank _ _ hrest =>
      cases hword
      obtain ⟨more, hmore, rfl⟩ := ih hrest fun x hx => hblanks x (List.mem_cons_of_mem _ hx)
      exact ⟨more, hmore, rfl⟩
    | token _ hhead =>
      rw [hhead hs c (by rw [← hword]; rfl)] at hc
      cases hc

/-- A token that takes a whole line. -/
theorem Run.of_line
    (hhead : s.isOpen = false → ∀ c, line.head? = some c → isBlank c = false)
    (hfirst : language.first s line = (line.length, kind))
    (hnil : line = [] → s.after kind = s) :
    ∃ pieces, Run language s line pieces (s.after kind) ∧
      ∀ n < line.length, seenAt pieces n = some kind.closed := by
  by_cases hline : line = []
  · rw [hline, hnil hline]
    exact ⟨[], .nil s, fun n hn => by cases hn⟩
  · have hrest : Run language (s.after kind) (line.drop line.length) [] (s.after kind) := by
      rw [List.drop_length]
      exact .nil _
    refine ⟨_, .token hline hhead hfirst hrest, fun n hn => ?_⟩
    rw [List.take_length]
    exact if_pos hn

/-- A token that has been open goes on, unless nothing is left. -/
theorem Run.of_open {m : Nat} (hs : s.isOpen = true) (hfirst : language.first s rest = (m, kind))
    (hrun : Run language (s.after kind) (rest.drop m) pieces s') :
    ∃ more s', Run language s rest more s' ∧
      (rest ≠ [] → more = ⟨rest.take m, some kind⟩ :: pieces) := by
  by_cases hrest : rest = []
  · rw [hrest]
    exact ⟨[], s, .nil s, fun hne => absurd rfl hne⟩
  · have hhead : s.isOpen = false → ∀ c, rest.head? = some c → isBlank c = false := by
      intro hclosed
      rw [hs] at hclosed
      cases hclosed
    exact ⟨_, s', .token hrest hhead hfirst hrun, fun _ => rfl⟩

/-! ## Splitting a run after a line -/

/-- A run over a text falls into a run over its first line and a run over the rest, which show each
character in the class that it has in the whole, if the literals settle with it. -/
structure Splits (language : Language) (s : LexState) (pieces : List Piece)
    (line eol rest : List Char) (first : List Piece) (s₁ : LexState) (more : List Piece) :
    Prop where
  /-- The run over the line. -/
  firstRun : Run language s line first s₁
  /-- The run over the rest. -/
  moreRun : ∃ s₂, Run language s₁ rest more s₂
  /-- The characters of the line. -/
  inLine : ∀ before : List Char, before.length < line.length → Settled language s before pieces →
    seenAt pieces before.length = seenAt first before.length
  /-- The characters of the rest. -/
  inRest : ∀ before : List Char, before.length < rest.length →
    Settled language s (line ++ (eol ++ before)) pieces →
    Settled language s₁ before more ∧
      seenAt pieces (line ++ (eol ++ before)).length = seenAt more before.length

/-- A piece in the line belongs to both runs. -/
theorem Splits.cons {line' : List Char} (piece : Piece)
    (h : Splits language (piece.next s) pieces line' eol rest first s₁ more)
    (hline : line = piece.characters ++ line') (hrun : Run language s line (piece :: first) s₁) :
    Splits language s (piece :: pieces) line eol rest (piece :: first) s₁ more where
  firstRun := hrun
  moreRun := h.moreRun
  inLine before hlt hsettled := by
    rw [hline, List.length_append] at hlt
    by_cases hin : before.length < piece.characters.length
    · rw [seenAt, seenAt, if_pos hin, if_pos hin]
    · rw [seenAt, seenAt, if_neg hin, if_neg hin, ← List.length_drop]
      exact h.inLine _ (by rw [List.length_drop]; omega) (hsettled.2 (Nat.le_of_not_lt hin))
  inRest before hlt hsettled := by
    rw [hline, List.append_assoc] at hsettled ⊢
    obtain ⟨hmore, hseen⟩ := h.inRest before hlt hsettled.tail
    refine ⟨hmore, ?_⟩
    rw [List.length_append, seenAt_cons, hseen]

/-- At the end of a line where nothing is open the line end is passed over. -/
theorem Splits.of_lineEnd (h : Run language s (eol ++ rest) pieces s') (hs : s.isOpen = false)
    (hline : LineBreak line eol rest) :
    ∃ more, Splits language s pieces [] eol rest [] s more := by
  obtain ⟨more, hmore, rfl⟩ := h.of_blanks hs fun c hc => hline.isBlank_of_mem hc
  refine ⟨more, .nil s, ⟨s', hmore⟩, fun before hlt => (by cases hlt),
    fun before _ hsettled => ?_⟩
  have hblanks : Settled language s (eol ++ before) (eol.map (⟨[·], none⟩) ++ more) := hsettled
  refine ⟨hblanks.of_blanks, ?_⟩
  have hseen := seenAt_append (eol.map (⟨[·], none⟩)) more before.length
  rwa [charactersOf_blanks, ← List.length_append] at hseen

/-- A token that goes on after a line is the token of the line and what the next line resumes. -/
theorem Splits.across {m : Nat}
    (hhead : s.isOpen = false → ∀ c, line.head? = some c → isBlank c = false)
    (hfirst : language.first s line = (line.length, opened))
    (hnil : line = [] → s.after opened = s) (hopen : (s.after opened).isOpen = true)
    (hresume : language.first (s.after opened) rest = (m, kind))
    (hafter : (s.after opened).after kind = s.after kind) (hclosed : kind.closed = opened.closed)
    (hrun : Run language (s.after kind) (rest.drop m) pieces s')
    (hsettles : '\n' ∈ eol → ∀ before after, language.Settles s (line ++ (eol ++ before))
      (line ++ (eol ++ rest.take m)) after kind →
      language.Settles (s.after opened) before (rest.take m) after kind)
    (hline : LineBreak line eol rest) :
    ∃ first s₁ more, Splits language s (⟨line ++ (eol ++ rest.take m), some kind⟩ :: pieces) line
      eol rest first s₁ more := by
  obtain ⟨first, hfirstRun, hseen⟩ := Run.of_line hhead hfirst hnil
  rw [← hafter] at hrun
  obtain ⟨more, s₂, hmore, hcons⟩ := Run.of_open hopen hresume hrun
  refine ⟨first, _, more, hfirstRun, ⟨s₂, hmore⟩, fun before hlt _ => ?_,
    fun before hlt hsettled => ?_⟩
  · rw [hseen _ hlt, seenAt, if_pos (by rw [List.length_append]; omega), ← hclosed]
    rfl
  · have hrest : rest ≠ [] := List.ne_nil_of_length_pos (by omega)
    obtain rfl := hcons hrest
    refine ⟨⟨fun kind' hkind => ?_, fun hle => ?_⟩, ?_⟩
    · cases hkind
      exact hsettles (hline.feed_mem hrest) before _ (hsettled.1 kind rfl)
    · have htail := hsettled.2 (by simpa only [List.length_append, Nat.add_le_add_iff_left])
      simp only [List.length_append, List.drop_length_add_append] at htail
      show Settled language ((s.after opened).after kind) _ pieces
      rw [hafter]
      exact htail
    · simp only [seenAt, List.length_append, Nat.add_lt_add_iff_left, Nat.add_sub_add_left]

/-- Nothing is claimed of the lines after that in which a literal begins that does not settle. -/
theorem Splits.of_unsettled {n : Nat}
    (hhead : s.isOpen = false → ∀ c, line.head? = some c → isBlank c = false)
    (hfirst : language.first s line = (line.length, .openConstant))
    (hnil : line = [] → s.after .openConstant = s) (hle : line.length ≤ n)
    (hclosed : kind.closed = .constant) (hchars : charactersOf pieces =
      (line ++ (eol ++ rest)).drop n)
    (hnot : ∀ before, '\n' ∈ before → ¬language.Settles s before
      ((line ++ (eol ++ rest)).take n) ((line ++ (eol ++ rest)).drop n) kind)
    (hline : LineBreak line eol rest) :
    ∃ first s₁ more, Splits language s
      (⟨(line ++ (eol ++ rest)).take n, some kind⟩ :: pieces) line eol rest first s₁ more := by
  obtain ⟨first, hfirstRun, hseen⟩ := Run.of_line hhead hfirst hnil
  obtain ⟨more, s₂, hmore⟩ := exists_run language (s.after .openConstant) rest
  refine ⟨first, _, more, hfirstRun, ⟨s₂, hmore⟩, fun before hlt _ => ?_,
    fun before hlt hsettled => ?_⟩
  · have hlength : before.length < ((line ++ (eol ++ rest)).take n).length := by
      rw [List.length_take, List.length_append]
      omega
    rw [hseen _ hlt, seenAt, if_pos hlength]
    exact congrArg some hclosed
  · have hrest : rest ≠ [] := List.ne_nil_of_length_pos (by omega)
    have hsettles := hsettled.1 kind rfl
    rw [hchars] at hsettles
    exact absurd hsettles (hnot _ (by simp [hline.feed_mem hrest]))

/-- A sign that the line end makes a literal in the whole text. -/
theorem Splits.of_sign {c x : Char} (hs : s.isOpen = false) (hhead : isBlank c = false)
    (hfirst : language.first s [c] = (1, .token))
    (hnot : ¬language.Settles s [] [c, x] (eol ++ rest) .constant)
    (hrun : Run language s (eol ++ rest) pieces s') (heol : ∀ y ∈ eol, isBlank y = true) :
    ∃ first s₁ more, Splits language s (⟨[c, x], some .constant⟩ :: pieces) [c] (x :: eol) rest
      first s₁ more := by
  have hchars := hrun.charactersOf
  obtain ⟨more, hmore, rfl⟩ := hrun.of_blanks hs heol
  have hfirstRun : Run language s [c] [⟨[c], some .token⟩] s :=
    .token (List.cons_ne_nil c []) (fun _ y hy => by cases hy; exact hhead) hfirst (.nil s)
  have hclosed : s.after .constant = s := LexState.after_constant (Bool.or_eq_false_iff.1 hs).2
  refine ⟨_, s, more, hfirstRun, ⟨s', hmore⟩, fun before hlt hsettled => ?_,
    fun before _ hsettled => ⟨?_, ?_⟩⟩
  · obtain rfl : before = [] := List.length_eq_zero_iff.1 (Nat.lt_one_iff.1 hlt)
    have hsettles := hsettled.1 .constant rfl
    rw [hchars] at hsettles
    exact absurd hsettles hnot
  · have hcons : Settled language s ([c, x] ++ (eol ++ before))
        (⟨[c, x], some .constant⟩ :: (eol.map (⟨[·], none⟩) ++ more)) := hsettled
    have htail := hcons.tail
    rw [Piece.next, Option.elim_some, hclosed] at htail
    exact htail.of_blanks
  · have hseen := seenAt_append (eol.map (⟨[·], none⟩)) more before.length
    rw [charactersOf_blanks, ← List.length_append] at hseen
    rw [← hseen, show [c] ++ (x :: eol ++ before) = [c, x] ++ (eol ++ before) from rfl,
      List.length_append]
    exact seenAt_cons ⟨[c, x], some .constant⟩ _ _

/-- A token at the start of a line, unless it ends in the line. -/
theorem Splits.of_token {n : Nat}
    (hhead : s.isOpen = false → ∀ c, line.head? = some c → isBlank c = false)
    (hopen : line = [] → s.isOpen = true)
    (hfirst : language.first s (line ++ (eol ++ rest)) = (n, kind))
    (hrest : Run language (s.after kind) ((line ++ (eol ++ rest)).drop n) pieces s')
    (hline : LineBreak line eol rest) (hacross : TokenAcross language s line eol rest)
    (hwithin : line ≠ [] → language.first s line = (n, kind) → ∃ first s₁ more,
      Splits language s (⟨(line ++ (eol ++ rest)).take n, some kind⟩ :: pieces) line eol rest
        first s₁ more) :
    ∃ first s₁ more, Splits language s
      (⟨(line ++ (eol ++ rest)).take n, some kind⟩ :: pieces) line eol rest first s₁ more := by
  -- an open literal goes on in an empty line
  have hconstant (hcomment : s.inComment = false) (hnil : line = []) :
      s.after .openConstant = s := by
    refine LexState.after_openConstant ?_
    have hopen := hopen hnil
    rwa [LexState.isOpen, hcomment, Bool.false_or] at hopen
  -- what a token takes after the line
  have htake (m : Nat) : (line ++ (eol ++ rest)).take (line.length + (eol.length + m)) =
      line ++ (eol ++ rest.take m) := by
    rw [List.take_length_add_append, List.take_length_add_append]
  have hdrop (m : Nat) : (line ++ (eol ++ rest)).drop (line.length + (eol.length + m)) =
      rest.drop m := by
    rw [List.drop_length_add_append, List.drop_length_add_append]
  cases hacross with
  | within hne hsame => exact hwithin hne (hsame.symm.trans hfirst)
  | comment hopened hwhole =>
    obtain ⟨closed, hkind⟩ := exists_resumeComment language rest
    obtain ⟨rfl, rfl⟩ := Prod.mk.inj (hfirst.symm.trans hwhole)
    rw [hdrop] at hrest
    rw [htake]
    refine Splits.across hhead hopened (fun hnil => ?_) rfl (if_pos rfl) ?_ ?_ hrest ?_ hline
    · exact LexState.after_openComment (inComment_of_first (hopen hnil) hopened)
    · rw [hkind]
      cases closed <;> rfl
    · rw [hkind, closed_commentKind]
      rfl
    · intro _ before after _ hliteral
      rw [hkind, closed_commentKind] at hliteral
      cases hliteral
  | constant hcomment hopened hwhole hresettles =>
    obtain ⟨closed, hkind⟩ := exists_resumeConstant language rest
    obtain ⟨rfl, rfl⟩ := Prod.mk.inj (hfirst.symm.trans hwhole)
    rw [hdrop] at hrest
    rw [htake]
    have hresume : language.first (s.after .openConstant) rest =
        language.resumeConstant rest := by
      rw [Language.first, if_neg (by simp [LexState.after, hcomment])]
      rfl
    refine Splits.across hhead hopened (hconstant hcomment) ?_ hresume ?_ ?_ hrest
      (fun hfeed before after => hresettles _ _ before after hfeed) hline
    · rw [LexState.isOpen, Bool.or_eq_true]
      exact .inr rfl
    · rw [hkind]
      cases closed <;> rfl
    · rw [hkind, closed_constantKind]
      rfl
  | unsettled m kind' hcomment hopened hwhole hle hclosed hnot =>
    obtain ⟨rfl, rfl⟩ := Prod.mk.inj (hfirst.symm.trans hwhole)
    exact Splits.of_unsettled hhead hopened (hconstant hcomment) hle hclosed
      hrest.charactersOf hnot hline
  | sign c x eol' hc heol hs hopened hwhole hnot =>
    subst hc heol
    obtain ⟨rfl, rfl⟩ := Prod.mk.inj (hfirst.symm.trans hwhole)
    rw [LexState.after_constant (Bool.or_eq_false_iff.1 hs).2] at hrest
    exact Splits.of_sign hs (hhead hs c rfl) hopened hnot hrest fun y hy =>
      hline.isBlank_of_mem (List.mem_cons_of_mem _ hy)

/-- A run over a text that begins with a line falls into a run over the line and a run over the rest
of the text. -/
theorem Run.split_line (h : Run language s (line ++ (eol ++ rest)) pieces s')
    (hline : LineBreak line eol rest) :
    ∃ first s₁ more, Splits language s pieces line eol rest first s₁ more := by
  generalize hword : line ++ (eol ++ rest) = word at h
  induction h generalizing line with
  | nil s =>
    obtain ⟨rfl, htail⟩ := List.append_eq_nil_iff.1 hword
    obtain ⟨rfl, rfl⟩ := List.append_eq_nil_iff.1 htail
    exact ⟨[], s, [], .nil s, ⟨s, .nil s⟩, fun _ hlt => (by cases hlt),
      fun _ hlt => (by cases hlt)⟩
  | @blank s s' c cs pieces hs hc hrest ih =>
    cases line with
    | nil =>
      have hrun : Run language s (eol ++ rest) (⟨[c], none⟩ :: pieces) s' := by
        rw [show eol ++ rest = c :: cs from hword]
        exact .blank hs hc hrest
      exact ⟨[], s, Splits.of_lineEnd hrun hs hline⟩
    | cons x line =>
      obtain ⟨rfl, hcs⟩ := List.cons_eq_cons.1 hword
      obtain ⟨first, s₁, more, hsplits⟩ := ih hline.of_cons hcs
      exact ⟨_, s₁, more, hsplits.cons ⟨[x], none⟩ rfl (.blank hs hc hsplits.firstRun)⟩
  | @token s s' cs n kind pieces hcs hhead hfirst hrest ih =>
    subst hword
    by_cases hempty : line = [] ∧ s.isOpen = false
    · obtain ⟨rfl, hs⟩ := hempty
      exact ⟨[], s, Splits.of_lineEnd (.token hcs hhead hfirst hrest) hs hline⟩
    have hclosed : s.isOpen = false → line ≠ [] := fun hs hnil => hempty ⟨hnil, hs⟩
    have hopen : line = [] → s.isOpen = true := fun hnil => by
      rw [← Bool.not_eq_false]
      exact fun hs => hempty ⟨hnil, hs⟩
    have hlineHead : s.isOpen = false → ∀ c, line.head? = some c → isBlank c = false := by
      intro hs c hc
      refine hhead hs c ?_
      obtain ⟨rest', rfl⟩ := List.head?_eq_some_iff.1 hc
      rfl
    have hacross : TokenAcross language s line eol rest := by
      refine tokenAcross language hline hclosed fun hnil heol => hcs ?_
      rw [hnil, heol, hline.rest_of_nil heol]
      rfl
    refine Splits.of_token hlineHead hopen hfirst hrest hline hacross fun hne hsame => ?_
    -- the token ends in the line, and the line goes on after it
    have hle : n ≤ line.length := by
      have hfits := (language.first_fits s line).le
      rwa [hsame] at hfits
    obtain ⟨first, s₁, more, hsplits⟩ :=
      ih (hline.drop n) (List.drop_append_of_le_length hle).symm
    have hrun : Run language s line (⟨line.take n, some kind⟩ :: first) s₁ :=
      .token hne hlineHead hsame hsplits.firstRun
    rw [List.take_append_of_le_length hle]
    exact ⟨_, s₁, more, hsplits.cons ⟨line.take n, some kind⟩
      (List.take_append_drop n line).symm hrun⟩

/-! ## Lines -/

/-- What is trimmed off a line ends it. -/
theorem exists_trimmed (body : List Char) :
    ∃ ends, body = trimLineEnds body ++ ends ∧ (∀ c ∈ ends, CDialect.isLineEnd c = true) ∧
      ∀ c, (trimLineEnds body).getLast? = some c → CDialect.isLineEnd c = false := by
  refine ⟨(body.reverse.takeWhile CDialect.isLineEnd).reverse, ?_, ?_, ?_⟩
  · rw [trimLineEnds, ← List.reverse_append, List.takeWhile_append_dropWhile, List.reverse_reverse]
  · intro c hc
    exact List.all_eq_true.1 List.all_takeWhile c (List.mem_reverse.1 hc)
  · intro c hc
    rw [trimLineEnds, List.getLast?_reverse] at hc
    exact eq_false_of_head?_dropWhile hc

/-- A line feed at the end of a line is trimmed. -/
theorem trimLineEnds_feed (body : List Char) :
    trimLineEnds (body ++ ['\n']) = trimLineEnds body := by
  rw [trimLineEnds, List.reverse_append, List.reverse_singleton, List.singleton_append,
    List.dropWhile_cons_of_pos (by rfl), ← trimLineEnds]

/-- A line without its line end. -/
theorem lineBreak_trimLineEnds {body rest : List Char} (hbody : '\n' ∉ body)
    (h : line = body ++ ['\n'] ∨ line = body ∧ rest = []) :
    ∃ eol, line = trimLineEnds line ++ eol ∧ LineBreak (trimLineEnds line) eol rest := by
  obtain ⟨returns, hsplit, hends, hlast⟩ := exists_trimmed body
  rw [hsplit, List.mem_append, not_or] at hbody
  have hreturns : ∀ c ∈ returns, c = '\r' := by
    intro c hc
    rcases isLineEnd_cases (hends c hc) with rfl | rfl
    · exact absurd hc hbody.2
    · rfl
  rcases h with rfl | ⟨rfl, rfl⟩
  · rw [trimLineEnds_feed]
    refine ⟨returns ++ ['\n'], ?_, hbody.1, hlast, returns, hreturns, .inl rfl⟩
    rw [← List.append_assoc, ← hsplit]
  · exact ⟨returns, hsplit, hbody.1, hlast, returns, hreturns, .inr ⟨rfl, rfl⟩⟩

/-- The first line of a text, and the lines of the rest. -/
theorem exists_line (h : cs ≠ []) :
    ∃ line rest body, cs = line ++ rest ∧ splitLines cs = line :: splitLines rest ∧ line ≠ [] ∧
      '\n' ∉ body ∧ (line = body ++ ['\n'] ∨ line = body ∧ rest = []) := by
  induction cs with
  | nil => exact absurd rfl h
  | cons c cs ih =>
    by_cases hc : c = '\n'
    · subst hc
      exact ⟨['\n'], cs, [], rfl, rfl, by simp, by simp, .inl rfl⟩
    · by_cases hcs : cs = []
      · subst hcs
        refine ⟨[c], [], [c], rfl, ?_, by simp, by simpa using Ne.symm hc, .inr ⟨rfl, rfl⟩⟩
        simp [splitLines, hc]
      · obtain ⟨line, rest, body, rfl, hlines, -, hbody, hline⟩ := ih hcs
        refine ⟨c :: line, rest, c :: body, rfl, ?_, by simp, ?_, ?_⟩
        · rw [splitLines, if_neg hc, hlines]
        · rw [List.mem_cons, not_or]
          exact ⟨Ne.symm hc, hbody⟩
        · exact hline.imp (congrArg (c :: ·)) (And.imp_left (congrArg (c :: ·)))

/-- The tokens of the lines at the end of a text are those of pieces that show each character in the
class that it has in the whole end, if it belongs to no line end and the literals settle with it. -/
theorem exists_pieces_of_lines {text : String} (upto : List Char)
    (h : Run language s cs pieces s') (htext : text.toList = upto ++ cs) :
    ∃ more, tokenizeLines language text (byteLength upto) s (splitLines cs) =
        tokensAt (byteLength upto) more ∧
      charactersOf more = cs ∧ ∀ before c after, cs = before ++ c :: after →
        beginsLineEnd (c :: after) = false → Settled language s before pieces →
        seenAt pieces before.length = seenAt more before.length := by
  generalize hlength : cs.length = length
  induction length using Nat.strongRecOn generalizing s s' cs pieces upto with
  | _ length ih =>
    subst hlength
    by_cases hcs : cs = []
    · subst hcs
      exact ⟨[], rfl, rfl, fun before c after hsplit => by simp at hsplit⟩
    · obtain ⟨line, rest, body, rfl, hlines, hne, hbody, hline⟩ := exists_line hcs
      obtain ⟨eol, hsplit, hbreak⟩ := lineBreak_trimLineEnds hbody hline
      have hrun := h
      rw [hsplit, List.append_assoc] at hrun
      obtain ⟨first, s₁, more, hsplits⟩ := hrun.split_line hbreak
      obtain ⟨s₂, hmore⟩ := hsplits.moreRun
      have hlt : rest.length < (line ++ rest).length := by
        have := List.length_pos_iff.2 hne
        rw [List.length_append]
        omega
      have hrest : text.toList = upto ++ line ++ rest := by rw [htext, List.append_assoc]
      obtain ⟨others, htokens, hothers, hseen⟩ := ih rest.length hlt _ hmore hrest rfl
      have hfirst := hsplits.firstRun.charactersOf
      have hchars : charactersOf (⟨eol, none⟩ :: others) = eol ++ rest := by
        rw [charactersOf_cons, hothers]
      -- the range of the line is what is left of it without its end
      have hslice : IsSlice text.toList (byteLength upto)
          (byteLength upto + byteLength (trimLineEnds line)) (trimLineEnds line) :=
        ⟨upto, eol ++ rest, by rw [htext, ← List.append_assoc _ eol, ← hsplit], rfl, rfl⟩
      obtain ⟨hlineTokens, hlineState⟩ := Tokenizer.all_ofRange hslice hsplits.firstRun
      refine ⟨first ++ ⟨eol, none⟩ :: others, ?_, ?_, ?_⟩
      · have hlength : byteLength line =
            byteLength (charactersOf first) + byteLength eol := by
          rw [hfirst, ← byteLength_append, ← hsplit]
        rw [byteLength_append, hlength, ← Nat.add_assoc] at htokens
        rw [hlines, tokenizeLines, tokensAt_append]
        simp only [hlineTokens, hlineState]
        rw [hlength, ← Nat.add_assoc]
        exact congrArg _ htokens
      · rw [charactersOf_append, hfirst, hchars, ← List.append_assoc, ← hsplit]
      · intro before c after hword hends hsettled
        rw [hsplit, List.append_assoc] at hword
        rcases append_cons_cases hword with ⟨later, rfl, hlater⟩ | ⟨inside, hinside⟩
        · rcases append_cons_cases hlater with ⟨before, rfl, hrest⟩ | ⟨inside, hinside⟩
          · -- the character is in the rest
            have hlt : before.length < rest.length := by
              rw [hrest, List.length_append, List.length_cons]
              omega
            obtain ⟨hsettled, hsame⟩ := hsplits.inRest before hlt hsettled
            rw [hsame, hseen before c after hrest hends hsettled, List.length_append, ← hfirst,
              seenAt_append, List.length_append]
            exact (seenAt_cons ⟨eol, none⟩ others before.length).symm
          · -- it belongs to the line end
            have hbegins := hbreak.beginsLineEnd hinside (List.cons_ne_nil c inside)
            rw [hinside, List.append_assoc] at hlater
            rw [← List.append_cancel_left hlater, hbegins] at hends
            cases hends
        · -- it is in the line
          have hlt : before.length < (trimLineEnds line).length := by
            rw [hinside, List.length_append, List.length_cons]
            omega
          rw [hsplits.inLine before hlt hsettled, seenAt_append_of_lt]
          rw [hfirst]
          exact hlt

/-! ## The literals of a text -/

/-- Whether a token of a text settles with the character that comes after `before`, unless it begins
after that. -/
def Language.SettlesIn (language : Language) (source before : List Char) (t : Token) : Prop :=
  t.start ≤ byteLength before →
    language.Settles .initial (slice source t.start (byteLength before)) (t.characters source)
      (slice source t.stop (byteLength source)) t.kind

/-- In a run that begins where nothing is open, something is open only at the end. -/
theorem Run.next_initial (h : Run language (s.after kind) cs pieces s') (hs : s = .initial)
    (hend : kind.isOpen = true → cs = []) : s.after kind = .initial ∨ pieces = [] := by
  subst hs
  cases hopen : kind.isOpen with
  | true =>
    rw [hend hopen] at h
    exact .inr h.eq_nil.1
  | false =>
    left
    cases kind <;> first | rfl | cases hopen

/-- What is asked of a token is asked of its piece. -/
theorem settles_of_settlesIn (earlier : List Char) {literal : List Char}
    (hbefore : before <+: literal ++ rest)
    (h : language.SettlesIn (earlier ++ (literal ++ rest)) (earlier ++ before)
      ⟨kind, byteLength earlier, byteLength earlier + byteLength literal⟩) :
    language.Settles .initial before literal rest kind := by
  have hsettles := h (by rw [byteLength_append]; exact Nat.le_add_right _ _)
  have hliteral : Token.characters ⟨kind, byteLength earlier,
      byteLength earlier + byteLength literal⟩ (earlier ++ (literal ++ rest)) = literal :=
    slice_append _ _ _
  have hafter : slice (earlier ++ (literal ++ rest)) (byteLength earlier + byteLength literal)
      (byteLength (earlier ++ (literal ++ rest))) = rest := by
    have hslice := slice_append (earlier ++ literal) rest []
    rwa [List.append_nil, ← byteLength_append, List.append_assoc, byteLength_append earlier literal]
      at hslice
  have hupto : slice (earlier ++ (literal ++ rest)) (byteLength earlier)
      (byteLength (earlier ++ before)) = before := by
    obtain ⟨more, hmore⟩ := hbefore
    rw [← hmore, byteLength_append]
    exact slice_append _ _ _
  simp only [hliteral, hafter, hupto] at hsettles
  exact hsettles

/-- The literals of a run over the end of a text settle if the tokens of the run do. -/
theorem settled_of_run (earlier : List Char) {source : List Char} (h : Run language s cs pieces s')
    (hs : s = .initial) (hsource : source = earlier ++ cs) (hbefore : before <+: cs)
    (hall : ∀ t ∈ tokensAt (byteLength earlier) pieces,
      language.SettlesIn source (earlier ++ before) t) : Settled language s before pieces := by
  induction h generalizing earlier before with
  | nil => trivial
  | @blank s s' c cs pieces _ _ _ ih =>
    refine .of_tail ⟨[c], none⟩ hbefore (fun kind hkind => by cases hkind)
      fun later hlater hprefix => ?_
    refine ih (earlier ++ [c]) hs ?_ hprefix fun t ht => ?_
    · rw [hsource, List.append_assoc]
      rfl
    · rw [List.append_assoc]
      rw [byteLength_append] at ht
      rw [hlater] at hall
      exact hall t ht
  | @token s s' cs n kind pieces _ _ hfirst hrest ih =>
    have hcs : cs.take n ++ cs.drop n = cs := List.take_append_drop n cs
    refine .of_tail ⟨cs.take n, some kind⟩ (by rw [hcs]; exact hbefore)
      (fun kind' hkind => ?_) fun later hlater hprefix => ?_
    · cases hkind
      rw [hrest.charactersOf, hs]
      refine settles_of_settlesIn earlier (by rw [hcs]; exact hbefore) ?_
      rw [hcs, ← hsource]
      exact hall _ List.mem_cons_self
    · have hend : kind.isOpen = true → cs.drop n = [] := by
        intro hopen
        have hlength := (language.first_fits s cs).whole (by rw [hfirst]; exact hopen)
        rw [hfirst] at hlength
        rw [show n = cs.length from hlength, List.drop_length]
      rcases hrest.next_initial hs hend with hinitial | hnil
      · refine ih (earlier ++ cs.take n) hinitial ?_ hprefix fun t ht => ?_
        · rw [hsource, List.append_assoc, hcs]
        · rw [List.append_assoc]
          rw [byteLength_append] at ht
          rw [hlater] at hall
          exact hall t (List.mem_append_right _ ht)
      · rw [hnil]
        trivial

end Markup.Lexis
