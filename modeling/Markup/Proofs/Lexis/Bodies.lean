import Markup.Lexis.Tokenizer

/-!
# Comments and literals over a boundary

The body of a comment or a literal is read up to its end. What follows the end does not matter to
it, and a body without an end goes on with what follows. The side conditions name the pairs of
characters that a boundary must not take apart. The literals of the C family are different: a line
end that no backslash escapes ends them, so they are read over a boundary between two lines in one
of three ways (`LiteralAcross`).
-/

namespace Markup.Lexis

/-- Whether characters begin with a line end, or with a part of one: with carriage returns right
before a line feed or before the end of the text. -/
def beginsLineEnd (cs : List Char) : Bool :=
  match cs.dropWhile (· == '\r') with
  | [] => true
  | c :: _ => c == '\n'

/-- Carriage returns before a line end are part of it. -/
theorem beginsLineEnd_append {returns : List Char} (h : ∀ c ∈ returns, c = '\r')
    (cs : List Char) : beginsLineEnd (returns ++ cs) = beginsLineEnd cs := by
  rw [beginsLineEnd, List.dropWhile_append_of_pos fun c hc => by rw [h c hc]; rfl, ← beginsLineEnd]

/-- A line of a text: its characters, the line end and the rest of the text. Carriage returns right
before a line feed, or before the end of the text, belong to the line end. -/
structure LineBreak (line eol rest : List Char) : Prop where
  /-- The line ends at its first line feed. -/
  noFeed : '\n' ∉ line
  /-- The last character does not belong to the line end. -/
  last : ∀ c, line.getLast? = some c → CDialect.isLineEnd c = false
  /-- The line end. -/
  lineEnd : ∃ returns, (∀ c ∈ returns, c = '\r') ∧
    (eol = returns ++ ['\n'] ∨ eol = returns ∧ rest = [])

namespace LineBreak

variable {c : Char} {line eol rest : List Char}

/-- The end of a line. -/
theorem of_cons (h : LineBreak (c :: line) eol rest) : LineBreak line eol rest := by
  refine ⟨fun hmem => h.noFeed (List.mem_cons_of_mem _ hmem), fun x hx => h.last x ?_, h.lineEnd⟩
  rw [List.getLast?_cons, hx]
  rfl

/-- The end of a line of which some characters have been read. -/
theorem drop (h : LineBreak line eol rest) (n : Nat) : LineBreak (line.drop n) eol rest := by
  induction n generalizing line with
  | zero => exact h
  | succ n ih =>
    cases line with
    | nil => exact h
    | cons c line => exact ih h.of_cons

/-- A line end consists of carriage returns and a line feed. -/
theorem isLineEnd_of_mem (h : LineBreak line eol rest) (hc : c ∈ eol) :
    CDialect.isLineEnd c = true := by
  obtain ⟨returns, hreturns, rfl | ⟨rfl, -⟩⟩ := h.lineEnd
  · rcases List.mem_append.1 hc with hc | hc
    · rw [hreturns c hc]
      rfl
    · rw [List.mem_singleton.1 hc]
      rfl
  · rw [hreturns c hc]
    rfl

/-- Other characters are not part of a line end. -/
theorem not_mem (h : LineBreak line eol rest) (hc : CDialect.isLineEnd c = false) : c ∉ eol := by
  intro hmem
  rw [h.isLineEnd_of_mem hmem] at hc
  cases hc

/-- Only at the end of the text there is no line end. -/
theorem rest_of_nil (h : LineBreak line eol rest) (heol : eol = []) : rest = [] := by
  obtain ⟨returns, -, hfeed | ⟨-, hrest⟩⟩ := h.lineEnd
  · rw [heol] at hfeed
    exact absurd hfeed (by simp)
  · exact hrest

/-- What follows a line begins with its line end. -/
theorem isLineEnd_of_head (h : LineBreak line eol rest) (hc : (eol ++ rest).head? = some c) :
    CDialect.isLineEnd c = true := by
  cases heol : eol with
  | nil =>
    rw [heol, h.rest_of_nil heol] at hc
    cases hc
  | cons x eol' =>
    rw [heol] at hc
    cases hc
    exact h.isLineEnd_of_mem (by rw [heol]; exact List.mem_cons_self)

/-- Every part of a line end is one. -/
theorem beginsLineEnd (h : LineBreak line eol rest) {taken left : List Char}
    (heol : eol = taken ++ left) (hleft : left ≠ []) : beginsLineEnd (left ++ rest) = true := by
  obtain ⟨returns, hreturns, hfeed | ⟨hsame, rfl⟩⟩ := h.lineEnd
  · rw [hfeed] at heol
    rcases List.append_eq_append_iff.1 heol with ⟨more, -, hmore⟩ | ⟨more, hsplit, rfl⟩
    · -- the line feed is all that is left
      rcases List.append_eq_singleton_iff.1 hmore.symm with ⟨-, rfl⟩ | ⟨-, hnil⟩
      · rfl
      · exact absurd hnil hleft
    · rw [List.append_assoc, beginsLineEnd_append fun x hx => hreturns x ?_]
      · rfl
      · rw [hsplit]
        exact List.mem_append_right _ hx
  · rw [beginsLineEnd_append fun x hx => hreturns x ?_]
    · rfl
    · rw [← hsame, heol]
      exact List.mem_append_right _ hx

/-- Unless the text ends with the line, there is a line feed. -/
theorem feed_mem (h : LineBreak line eol rest) (hrest : rest ≠ []) : '\n' ∈ eol := by
  obtain ⟨returns, -, rfl | ⟨-, hnil⟩⟩ := h.lineEnd
  · simp
  · exact absurd hnil hrest

end LineBreak

variable {us tail : List Char} {mark : Char}

/-- A body takes no more characters than there are, and all of them if it has no end. -/
structure BodyFits (us : List Char) (body : Nat × Bool) : Prop where
  le : body.1 ≤ us.length
  whole : body.2 = false → body.1 = us.length

/-- Characters before a body are taken with it. -/
theorem BodyFits.append {n : Nat} {closed : Bool} (h : BodyFits us (n, closed))
    (first : List Char) : BodyFits (first ++ us) (n + first.length, closed) := by
  obtain ⟨hle, hwhole⟩ := h
  refine ⟨?_, fun hopen => ?_⟩
  · rw [List.length_append, Nat.add_comm]
    exact Nat.add_le_add_left hle _
  · rw [List.length_append, Nat.add_comm]
    exact congrArg _ (hwhole hopen)

/-- A body that ends may end anywhere in the characters. -/
theorem BodyFits.of_closed {n : Nat} (h : n ≤ us.length) : BodyFits us (n, true) :=
  ⟨h, fun hopen => absurd hopen.symm Bool.false_ne_true⟩

/-- In no characters a body is open and takes none. -/
theorem BodyFits.nil : BodyFits [] (0, false) :=
  ⟨Nat.le_refl 0, fun _ => rfl⟩

/-- How a body that no line end ends is read when it is open in the characters of a line. -/
inductive BodyAcross (body : List Char → Nat × Bool) (us eol rest : List Char) : Prop
  /-- It ends in the line. -/
  | within : us ≠ [] → body (us ++ (eol ++ rest)) = body us → BodyAcross body us eol rest
  /-- It goes on with the rest. -/
  | across : body us = (us.length, false) →
      body (us ++ (eol ++ rest)) = (us.length + (eol.length + (body rest).1), (body rest).2) →
      BodyAcross body us eol rest

/-- A body that ends in the line is not changed by what follows, and an open one goes on with it. -/
theorem bodyAcross {body : List Char → Nat × Bool} {eol rest : List Char}
    (hfits : ∀ us, BodyFits us (body us)) (hnil : (body []).2 = false)
    (hclosed : (body us).2 = true → body (us ++ (eol ++ rest)) = body us)
    (hopen : (body us).2 = false → body (us ++ (eol ++ rest)) =
      (us.length + (eol.length + (body rest).1), (body rest).2)) :
    BodyAcross body us eol rest := by
  cases hend : (body us).2 with
  | true =>
    refine .within ?_ (hclosed hend)
    rintro rfl
    rw [hend] at hnil
    cases hnil
  | false => exact .across (Prod.ext ((hfits us).whole hend) hend) (hopen hend)

namespace CDialect

/-! ## Comments of the C family -/

/-- A comment that ends is read without a look at what follows it. -/
theorem commentBody_of_closed (h : (commentBody us).2 = true) (tail : List Char) :
    commentBody (us ++ tail) = commentBody us := by
  induction us with
  | nil => cases h
  | cons c us ih =>
    by_cases hend : c = '*' ∧ us.head? = some '/'
    · obtain ⟨rfl, hslash⟩ := hend
      obtain ⟨rest, rfl⟩ := List.head?_eq_some_iff.1 hslash
      rfl
    · rw [commentBody_cons hend] at h ⊢
      have hne : us ≠ [] := by
        rintro rfl
        cases h
      rw [List.cons_append, commentBody_cons, ih h]
      cases us with
      | nil => exact absurd rfl hne
      | cons x us => exact hend

/-- A comment fits the characters it is read from. -/
theorem commentBody_fits (us : List Char) : BodyFits us (commentBody us) := by
  fun_induction commentBody us with
  | case1 => exact .nil
  | case2 rest => exact .of_closed (Nat.le_add_left 2 rest.length)
  | case3 c rest _ n closed hbody ih =>
    rw [hbody] at ih
    exact ih.append [c]

/-- A comment without an end goes on with what follows. -/
theorem commentBody_of_open (h : (commentBody us).2 = false)
    (hboundary : ¬(us.getLast? = some '*' ∧ tail.head? = some '/')) :
    commentBody (us ++ tail) = (us.length + (commentBody tail).1, (commentBody tail).2) := by
  induction us with
  | nil => simp
  | cons c us ih =>
    have hend : ¬(c = '*' ∧ us.head? = some '/') := by
      rintro ⟨rfl, hslash⟩
      obtain ⟨rest, rfl⟩ := List.head?_eq_some_iff.1 hslash
      cases h
    rw [commentBody_cons hend] at h
    rw [List.cons_append, commentBody_cons, ih h]
    · simp only [List.length_cons, Prod.mk.injEq, and_true]
      omega
    · rintro ⟨hlast, hhead⟩
      refine hboundary ⟨?_, hhead⟩
      rw [List.getLast?_cons, hlast]
      rfl
    · rintro ⟨rfl, hslash⟩
      cases us with
      | nil => exact hboundary ⟨rfl, hslash⟩
      | cons x us => exact hend ⟨rfl, hslash⟩

/-- Without an asterisk a comment stays open. -/
theorem commentBody_of_not_mem (h : '*' ∉ us) : (commentBody us).2 = false := by
  induction us with
  | nil => rfl
  | cons c us ih =>
    rw [List.mem_cons, not_or] at h
    obtain ⟨hc, hus⟩ := h
    rw [commentBody_cons fun hend => hc hend.1.symm]
    exact ih hus

/-- How a comment is read over the end of a line. -/
theorem commentAcross {line eol rest : List Char} (h : LineBreak line eol rest) :
    BodyAcross commentBody line eol rest := by
  refine bodyAcross commentBody_fits rfl (fun hclosed => commentBody_of_closed hclosed _)
    fun hopen => ?_
  have hstar : '*' ∉ eol := h.not_mem rfl
  rw [commentBody_of_open hopen, commentBody_of_open (commentBody_of_not_mem hstar)]
  · rintro ⟨hlast, -⟩
    exact hstar (List.mem_of_getLast? hlast)
  · rintro ⟨-, hhead⟩
    cases h.isLineEnd_of_head hhead

/-! ## Literals of the C family -/

section

variable {eol rest : List Char}

/-- A literal fits the characters it is read from. -/
theorem literalBody_fits (mark : Char) (us : List Char) : BodyFits us (literalBody mark us) := by
  fun_induction literalBody mark us with
  | case1 => exact .nil
  | case2 rest n closed hbody ih =>
    rw [hbody] at ih
    exact ih.append ['\\', '\r', '\n']
  | case3 c rest _ n closed hbody ih =>
    rw [hbody] at ih
    exact ih.append ['\\', c]
  | case4 => exact BodyFits.nil.append ['\\']
  | case5 rest => exact .of_closed (Nat.le_add_left 1 rest.length)
  | case6 c rest => exact .of_closed (Nat.zero_le _)
  | case7 c rest _ _ _ _ _ n closed hbody ih =>
    rw [hbody] at ih
    exact ih.append [c]

/-- How a literal is read that is open in the characters of a line. -/
inductive LiteralAcross (mark : Char) (us eol rest : List Char) : Prop
  /-- It ends within the line, or the text does. -/
  | within : literalBody mark (us ++ (eol ++ rest)) = literalBody mark us →
      LiteralAcross mark us eol rest
  /-- The line end, or what is left of it after an escape, ends it. -/
  | cut (taken left : List Char) : eol = taken ++ left → left ≠ [] →
      literalBody mark us = (us.length, false) → (literalBody mark (us ++ taken)).2 = false →
      literalBody mark (us ++ (eol ++ rest)) = (us.length + taken.length, true) →
      LiteralAcross mark us eol rest
  /-- A backslash takes the line end with it. -/
  | escaped : literalBody mark us = (us.length, false) → '\n' ∈ eol ∨ rest = [] →
      (∀ m, literalBody mark (us ++ (eol ++ rest.take m)) =
        (us.length + eol.length + (literalBody mark (rest.take m)).1,
          (literalBody mark (rest.take m)).2)) → LiteralAcross mark us eol rest

/-- The characters at the start of a line do not matter to what happens at its end. -/
theorem LiteralAcross.append (h : LiteralAcross mark us eol rest) (hfeed : '\n' ∉ us)
    (first : List Char)
    (hfirst : ∀ xs, us = [] ∨ xs.head? ≠ some '\n' → literalBody mark (first ++ xs) =
      ((literalBody mark xs).1 + first.length, (literalBody mark xs).2)) :
    LiteralAcross mark (first ++ us) eol rest := by
  have hus (xs : List Char) : us = [] ∨ (us ++ xs).head? ≠ some '\n' := by
    cases us with
    | nil => exact .inl rfl
    | cons c us =>
      refine .inr fun hhead => hfeed ?_
      cases hhead
      exact List.mem_cons_self
  have hbefore := hfirst us
    (by have h := hus []; rwa [List.append_nil] at h)
  cases h with
  | within hsame =>
    refine .within ?_
    rw [List.append_assoc, hfirst _ (hus _), hsame, hbefore]
  | cut taken left heol hleft hopen hpart hwhole =>
    refine .cut taken left heol hleft ?_ ?_ ?_
    · rw [hbefore, hopen, List.length_append, Nat.add_comm]
    · rw [List.append_assoc, hfirst _ (hus _)]
      exact hpart
    · rw [List.append_assoc, hfirst _ (hus _), hwhole, List.length_append]
      simp only [Prod.mk.injEq, and_true]
      omega
  | escaped hopen hfeed hrest =>
    refine .escaped ?_ hfeed fun m => ?_
    · rw [hbefore, hopen, List.length_append, Nat.add_comm]
    · rw [List.append_assoc, hfirst _ (hus _), hrest, List.length_append]
      simp only [Prod.mk.injEq, and_true]
      omega

/-- A line end right at its beginning closes a literal. -/
theorem literalBody_lineEnd {c : Char} (hmark : isLineEnd mark = false) (h : isLineEnd c = true)
    (us : List Char) : literalBody mark (c :: us) = (0, true) := by
  have hescape : c ≠ '\\' := by
    rintro rfl
    cases h
  have hne : c ≠ mark := by
    rintro rfl
    rw [h] at hmark
    cases hmark
  rw [literalBody_cons hescape, if_neg hne, if_pos h]

/-- A backslash at the end of a line takes the line end with it, unless another carriage return
comes first. -/
theorem literalAcross_backslash (hmark : isLineEnd mark = false)
    (h : LineBreak ['\\'] eol rest) : LiteralAcross mark ['\\'] eol rest := by
  obtain ⟨returns, hreturns, heol⟩ := h.lineEnd
  match returns with
  | [] =>
    rcases heol with rfl | ⟨rfl, rfl⟩
    · refine .escaped rfl (.inl List.mem_cons_self) fun m => ?_
      rw [List.nil_append, List.singleton_append, List.singleton_append,
        literalBody_escape (by simp)]
      simp only [List.length_singleton, Prod.mk.injEq, and_true]
      omega
    · exact .within rfl
  | [c] =>
    obtain rfl := hreturns c List.mem_cons_self
    rcases heol with rfl | ⟨rfl, rfl⟩
    · refine .escaped rfl (.inl (by simp)) fun m => ?_
      show literalBody mark ('\\' :: '\r' :: '\n' :: rest.take m) = _
      rw [literalBody.eq_2]
      simp only [List.length_append, List.length_singleton, Prod.mk.injEq, and_true]
      omega
    · refine .escaped rfl (.inr rfl) fun m => ?_
      rw [List.take_nil]
      rfl
  | c :: c' :: returns =>
    obtain rfl := hreturns c List.mem_cons_self
    obtain rfl := hreturns c' (List.mem_cons_of_mem _ List.mem_cons_self)
    obtain ⟨more, rfl⟩ : ∃ more, eol = '\r' :: '\r' :: more := by
      rcases heol with rfl | ⟨rfl, -⟩ <;> exact ⟨_, rfl⟩
    refine .cut ['\r'] ('\r' :: more) rfl (List.cons_ne_nil _ _) rfl rfl ?_
    show literalBody mark ('\\' :: '\r' :: '\r' :: (more ++ rest)) = _
    rw [literalBody_escape (by simp), literalBody_lineEnd hmark rfl]
    rfl

/-- How a literal is read over the end of a line. -/
theorem literalAcross (hmark : isLineEnd mark = false) (h : LineBreak us eol rest) :
    LiteralAcross mark us eol rest := by
  fun_induction literalBody mark us with
  | case1 =>
    cases eol with
    | nil =>
      rw [h.rest_of_nil rfl]
      exact .within rfl
    | cons c eol =>
      exact .cut [] (c :: eol) rfl (List.cons_ne_nil c eol) rfl rfl
        (literalBody_lineEnd hmark (h.isLineEnd_of_mem List.mem_cons_self) _)
  | case2 rest n closed hbody ih => exact absurd (by simp) h.noFeed
  | case3 c us hnot n closed hbody ih =>
    refine (ih h.of_cons.of_cons).append h.of_cons.of_cons.noFeed ['\\', c] fun xs hxs => ?_
    refine literalBody_escape ?_
    rintro ⟨rfl, hfeed⟩
    rcases hxs with rfl | hxs
    · cases h.last '\r' rfl
    · exact hxs hfeed
  | case4 => exact literalAcross_backslash hmark h
  | case5 us _ hne hlast =>
    have hescape : mark ≠ '\\' := ne_backslash hne hlast
    exact .within (by rw [List.cons_append, literalBody_cons hescape, literalBody_cons hescape,
      if_pos rfl, if_pos rfl])
  | case6 c us _ hne hlast hmark' hline =>
    exact .within (by rw [List.cons_append, literalBody_lineEnd hmark hline,
      literalBody_lineEnd hmark hline])
  | case7 c us _ hne hlast hmark' hline n closed hbody ih =>
    have hescape : c ≠ '\\' := ne_backslash hne hlast
    refine (ih h.of_cons).append h.of_cons.noFeed [c] fun xs _ => ?_
    rw [List.singleton_append, literalBody_cons hescape, if_neg hmark', if_neg hline]
    rfl

end

end CDialect

namespace Smalltalk

/-! ## Comments and strings of Smalltalk -/

/-- A comment that ends is read without a look at what follows it. -/
theorem commentBody_of_closed (h : (commentBody us).2 = true) (tail : List Char) :
    commentBody (us ++ tail) = commentBody us := by
  induction us with
  | nil => cases h
  | cons c us ih =>
    by_cases hmark : c = '"'
    · rw [hmark]
      rfl
    · rw [commentBody_cons hmark] at h ⊢
      rw [List.cons_append, commentBody_cons hmark, ih h]

/-- A comment fits the characters it is read from. -/
theorem commentBody_fits (us : List Char) : BodyFits us (commentBody us) := by
  fun_induction commentBody us with
  | case1 => exact .nil
  | case2 rest => exact .of_closed (Nat.le_add_left 1 rest.length)
  | case3 c rest _ n closed hbody ih =>
    rw [hbody] at ih
    exact ih.append [c]

/-- A comment without an end goes on with what follows. -/
theorem commentBody_of_open (h : (commentBody us).2 = false) (tail : List Char) :
    commentBody (us ++ tail) = (us.length + (commentBody tail).1, (commentBody tail).2) := by
  induction us with
  | nil => simp
  | cons c us ih =>
    have hmark : c ≠ '"' := by
      rintro rfl
      cases h
    rw [commentBody_cons hmark] at h
    rw [List.cons_append, commentBody_cons hmark, ih h]
    simp only [List.length_cons, Prod.mk.injEq, and_true]
    omega

/-- Without a quotation mark a comment stays open. -/
theorem commentBody_of_not_mem (h : '"' ∉ us) : (commentBody us).2 = false := by
  induction us with
  | nil => rfl
  | cons c us ih =>
    rw [List.mem_cons, not_or] at h
    obtain ⟨hc, hus⟩ := h
    rw [commentBody_cons (Ne.symm hc)]
    exact ih hus

/-- How a comment is read over the end of a line. -/
theorem commentAcross {line eol rest : List Char} (h : LineBreak line eol rest) :
    BodyAcross commentBody line eol rest := by
  refine bodyAcross commentBody_fits rfl (fun hclosed => commentBody_of_closed hclosed _)
    fun hopen => ?_
  rw [commentBody_of_open hopen, commentBody_of_open (commentBody_of_not_mem (h.not_mem rfl))]

/-- A string that ends is read the same before anything but another apostrophe. -/
theorem stringBody_of_closed (h : (stringBody us).2 = true) (hboundary : tail.head? ≠ some '\'') :
    stringBody (us ++ tail) = stringBody us := by
  fun_induction stringBody us with
  | case1 => cases h
  | case2 rest n closed hbody ih =>
    have hrest := ih (by rw [hbody]; exact h)
    show ((stringBody (rest ++ tail)).1 + 2, (stringBody (rest ++ tail)).2) = _
    rw [hrest, hbody]
  | case3 rest hne =>
    refine stringBody_mark ?_
    cases rest with
    | nil => exact hboundary
    | cons c rest =>
      intro hhead
      cases hhead
      exact hne rest rfl
  | case4 c rest hpair hne n closed hbody ih =>
    have hrest := ih (by rw [hbody]; exact h)
    rw [List.cons_append, stringBody_cons hne, hrest, hbody]

/-- A string fits the characters it is read from. -/
theorem stringBody_fits (us : List Char) : BodyFits us (stringBody us) := by
  fun_induction stringBody us with
  | case1 => exact .nil
  | case2 rest n closed hbody ih =>
    rw [hbody] at ih
    exact ih.append ['\'', '\'']
  | case3 rest => exact .of_closed (Nat.le_add_left 1 rest.length)
  | case4 c rest _ _ n closed hbody ih =>
    rw [hbody] at ih
    exact ih.append [c]

/-- A string without an end goes on with what follows. -/
theorem stringBody_of_open (h : (stringBody us).2 = false) (tail : List Char) :
    stringBody (us ++ tail) = (us.length + (stringBody tail).1, (stringBody tail).2) := by
  fun_induction stringBody us with
  | case1 => simp
  | case2 rest n closed hbody ih =>
    have hrest := ih (by rw [hbody]; exact h)
    show ((stringBody (rest ++ tail)).1 + 2, (stringBody (rest ++ tail)).2) = _
    rw [hrest]
    simp only [List.length_cons, Prod.mk.injEq, and_true]
    omega
  | case3 => cases h
  | case4 c rest _ hne n closed hbody ih =>
    have hrest := ih (by rw [hbody]; exact h)
    rw [List.cons_append, stringBody_cons hne, hrest]
    simp only [List.length_cons, Prod.mk.injEq, and_true]
    omega

/-- Without an apostrophe a string stays open. -/
theorem stringBody_of_not_mem (h : '\'' ∉ us) : (stringBody us).2 = false := by
  induction us with
  | nil => rfl
  | cons c us ih =>
    rw [List.mem_cons, not_or] at h
    obtain ⟨hc, hus⟩ := h
    rw [stringBody_cons (Ne.symm hc)]
    exact ih hus

/-- How a string is read over the end of a line. -/
theorem stringAcross {line eol rest : List Char} (h : LineBreak line eol rest) :
    BodyAcross stringBody line eol rest := by
  refine bodyAcross stringBody_fits rfl (fun hclosed => stringBody_of_closed hclosed ?_)
    fun hopen => ?_
  · intro hhead
    cases h.isLineEnd_of_head hhead
  · rw [stringBody_of_open hopen, stringBody_of_open (stringBody_of_not_mem (h.not_mem rfl))]

end Smalltalk

end Markup.Lexis
