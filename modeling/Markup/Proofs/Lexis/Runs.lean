import Markup.Proofs.Lexis.Bodies

/-!
# Runs of a scanner

A scanner divides its characters into pieces: tokens, and the blanks between them. `Run language s
cs pieces s'` says that `cs`, read from the state `s`, is divided like this and leaves the state
`s'`; a token is judged with all characters that follow it. The tokens of characters are those of
their run (`Scanner.all_of_run`), and all characters have a run (`exists_run`).

What a highlighter sees of the tokens is the class of each byte (`classAt`). It is the class of the
piece that the character of the byte belongs to (`classAt_tokensAt`).
-/

namespace Markup.Lexis

open Markup.Text

/-! ## Classes -/

/-- The kind of a token, whether or not a literal or a comment has its end. -/
def TokenKind.closed : TokenKind → TokenKind
  | openConstant => .constant
  | openComment => .comment
  | kind => kind

/-- Whether a token of a kind has no end. -/
def TokenKind.isOpen : TokenKind → Bool
  | openConstant | openComment => true
  | _ => false

@[simp] theorem closed_constantKind (closed : Bool) :
    (constantKind closed).closed = .constant := by
  cases closed <;> rfl

@[simp] theorem closed_commentKind (closed : Bool) : (commentKind closed).closed = .comment := by
  cases closed <;> rfl

@[simp] theorem isOpen_constantKind (closed : Bool) : (constantKind closed).isOpen = !closed := by
  cases closed <;> rfl

@[simp] theorem isOpen_commentKind (closed : Bool) : (commentKind closed).isOpen = !closed := by
  cases closed <;> rfl

/-- The class of the byte at an offset: the kind of the token that covers it. -/
def classAt (tokens : List Token) (offset : Nat) : Option TokenKind :=
  (tokens.find? fun t => t.start ≤ offset && offset < t.stop).map (·.kind.closed)

/-! ## Pieces -/

/-- Characters that belong to one token or to none. -/
structure Piece where
  /-- The characters. -/
  characters : List Char
  /-- The kind of the token. -/
  kind? : Option TokenKind

/-- The tokens among pieces of which the first begins at an offset. -/
def tokensAt : Nat → List Piece → List Token
  | _, [] => []
  | position, piece :: pieces =>
    (piece.kind?.map (⟨·, position, position + byteLength piece.characters⟩)).toList ++
      tokensAt (position + byteLength piece.characters) pieces

theorem tokensAt_none (position : Nat) (us : List Char) (pieces : List Piece) :
    tokensAt position (⟨us, none⟩ :: pieces) = tokensAt (position + byteLength us) pieces := rfl

theorem tokensAt_some (position : Nat) (us : List Char) (kind : TokenKind) (pieces : List Piece) :
    tokensAt position (⟨us, some kind⟩ :: pieces) =
      ⟨kind, position, position + byteLength us⟩ ::
        tokensAt (position + byteLength us) pieces := rfl

/-- The characters of pieces. -/
def charactersOf (pieces : List Piece) : List Char :=
  pieces.flatMap Piece.characters

theorem charactersOf_cons (piece : Piece) (pieces : List Piece) :
    charactersOf (piece :: pieces) = piece.characters ++ charactersOf pieces := rfl

theorem charactersOf_singleton (piece : Piece) : charactersOf [piece] = piece.characters :=
  List.append_nil _

/-- The characters of two runs follow one another. -/
theorem charactersOf_append (pieces more : List Piece) :
    charactersOf (pieces ++ more) = charactersOf pieces ++ charactersOf more :=
  List.flatMap_append

/-- The tokens of a second run begin where the first one ends. -/
theorem tokensAt_append (position : Nat) (pieces more : List Piece) :
    tokensAt position (pieces ++ more) =
      tokensAt position pieces ++ tokensAt (position + byteLength (charactersOf pieces)) more := by
  induction pieces generalizing position with
  | nil => rfl
  | cons piece pieces ih =>
    rw [List.cons_append, tokensAt, tokensAt, ih, charactersOf_cons, byteLength_append,
      List.append_assoc, Nat.add_assoc]

/-- A token is a piece between others. -/
theorem exists_piece_of_mem_tokensAt {t : Token} {position : Nat} {pieces : List Piece}
    (h : t ∈ tokensAt position pieces) :
    ∃ earlier us later, pieces = earlier ++ ⟨us, some t.kind⟩ :: later ∧
      t.start = position + byteLength (charactersOf earlier) ∧
      t.stop = t.start + byteLength us := by
  induction pieces generalizing position with
  | nil => cases h
  | cons piece pieces ih =>
    have hlater (hmem : t ∈ tokensAt (position + byteLength piece.characters) pieces) :
        ∃ earlier us later, piece :: pieces = earlier ++ ⟨us, some t.kind⟩ :: later ∧
          t.start = position + byteLength (charactersOf earlier) ∧
          t.stop = t.start + byteLength us := by
      obtain ⟨earlier, us, later, rfl, hstart, hstop⟩ := ih hmem
      refine ⟨piece :: earlier, us, later, rfl, ?_, hstop⟩
      rw [hstart, charactersOf_cons, byteLength_append, Nat.add_assoc]
    obtain ⟨us, kind?⟩ := piece
    cases kind? with
    | none => exact hlater h
    | some kind =>
      rw [tokensAt_some] at h
      rcases List.mem_cons.1 h with rfl | hmem
      · exact ⟨[], us, pieces, rfl, rfl, rfl⟩
      · exact hlater hmem

/-- The class of the character at an index. -/
def seenAt : List Piece → Nat → Option TokenKind
  | [], _ => none
  | piece :: pieces, n =>
    if n < piece.characters.length then piece.kind?.map TokenKind.closed
    else seenAt pieces (n - piece.characters.length)

/-- What covers a character after a piece does not depend on the piece. -/
theorem seenAt_cons (piece : Piece) (pieces : List Piece) (n : Nat) :
    seenAt (piece :: pieces) (piece.characters.length + n) = seenAt pieces n := by
  rw [seenAt, if_neg (by omega), Nat.add_sub_cancel_left]

/-- What covers a character after some pieces does not depend on them. -/
theorem seenAt_append (pieces more : List Piece) (n : Nat) :
    seenAt (pieces ++ more) ((charactersOf pieces).length + n) = seenAt more n := by
  induction pieces with
  | nil => exact congrArg _ (Nat.zero_add n)
  | cons piece pieces ih =>
    rw [List.cons_append, charactersOf_cons, List.length_append, Nat.add_assoc, seenAt_cons, ih]

/-- What covers a character does not depend on later pieces. -/
theorem seenAt_append_of_lt {pieces : List Piece} (more : List Piece) {n : Nat}
    (h : n < (charactersOf pieces).length) : seenAt (pieces ++ more) n = seenAt pieces n := by
  induction pieces generalizing n with
  | nil => cases h
  | cons piece pieces ih =>
    rw [charactersOf_cons, List.length_append] at h
    rw [List.cons_append, seenAt, seenAt]
    split
    · rfl
    · exact ih (by omega)

section

variable {piece : Piece} {pieces : List Piece} {tokens others : List Token} {position offset : Nat}

/-- Tokens that do not cover a position do not count there. -/
theorem classAt_append_of_forall (h : ∀ t ∈ tokens, ¬(t.start ≤ offset ∧ offset < t.stop)) :
    classAt (tokens ++ others) offset = classAt others offset := by
  have hnone : (tokens.find? fun t => t.start ≤ offset && offset < t.stop) = none := by
    refine List.find?_eq_none.2 fun t ht => ?_
    simpa using h t ht
  rw [classAt, List.find?_append, hnone]
  rfl

/-- Before the first piece nothing is covered. -/
theorem classAt_of_lt (h : offset < position) :
    classAt (tokensAt position pieces) offset = none := by
  induction pieces generalizing position with
  | nil => rfl
  | cons piece pieces ih =>
    rw [tokensAt, classAt_append_of_forall, ih (by omega)]
    intro t ht
    obtain ⟨kind, -, rfl⟩ := Option.map_eq_some_iff.1 (Option.mem_toList.1 ht)
    simp only
    omega

/-- A list with an element in it splits before the element or inside the first part. -/
theorem append_cons_cases {α : Type} {xs ys before after : List α} {x : α}
    (h : xs ++ ys = before ++ x :: after) :
    (∃ later, before = xs ++ later ∧ ys = later ++ x :: after) ∨
      ∃ inside, xs = before ++ x :: inside := by
  rcases List.append_eq_append_iff.1 h with ⟨later, hbefore, hys⟩ | ⟨inside, hxs, hafter⟩
  · exact .inl ⟨later, hbefore, hys⟩
  · cases inside with
    | nil => exact .inl ⟨[], by rw [hxs, List.append_nil, List.append_nil], hafter.symm⟩
    | cons y inside =>
      cases hafter
      exact .inr ⟨inside, hxs⟩

/-- The class of the bytes of a character is the class of its piece. -/
theorem classAt_tokensAt {before after : List Char} {c : Char}
    (h : charactersOf pieces = before ++ c :: after)
    (hstart : position + byteLength before ≤ offset)
    (hstop : offset < position + byteLength before + c.utf8Size) :
    classAt (tokensAt position pieces) offset = seenAt pieces before.length := by
  induction pieces generalizing position before with
  | nil => exact absurd h.symm (List.append_ne_nil_of_right_ne_nil _ (List.cons_ne_nil c after))
  | cons piece pieces ih =>
    rw [charactersOf_cons] at h
    rcases append_cons_cases h with ⟨later, rfl, hlater⟩ | ⟨inside, hinside⟩
    · -- the character belongs to a later piece
      rw [byteLength_append] at hstart hstop
      rw [tokensAt, classAt_append_of_forall, List.length_append, seenAt_cons]
      · exact ih hlater (by omega) (by omega)
      · intro t ht
        obtain ⟨kind, -, rfl⟩ := Option.map_eq_some_iff.1 (Option.mem_toList.1 ht)
        simp only
        omega
    · -- the piece covers the character, or no token does
      have hlength : byteLength before + c.utf8Size ≤ byteLength piece.characters := by
        rw [hinside, byteLength_append, byteLength_cons]
        omega
      have hlt : before.length < piece.characters.length := by
        rw [hinside, List.length_append, List.length_cons]
        omega
      rw [tokensAt, seenAt, if_pos hlt]
      cases hkind : piece.kind? with
      | none => exact classAt_of_lt (by omega)
      | some kind =>
        rw [Option.map_some, Option.toList_some, List.singleton_append, classAt,
          List.find?_cons_of_pos]
        · rfl
        · simp only [Bool.and_eq_true, decide_eq_true_eq]
          omega

end

/-! ## The first token -/

/-- Whether a comment or a literal is open. -/
def LexState.isOpen (s : LexState) : Bool :=
  s.inComment || s.inConstant

/-- The length and the kind of the first token, when a state is given. -/
def Language.first (language : Language) (s : LexState) (cs : List Char) : Nat × TokenKind :=
  if s.inComment then language.resumeComment cs
  else if s.inConstant then language.resumeConstant cs
  else language.scan cs

/-- Constants are of no other kind. -/
theorem constantKind_ne {kind : TokenKind} (h : kind.closed ≠ .constant) (closed : Bool) :
    constantKind closed ≠ kind := by
  rintro rfl
  exact h (closed_constantKind closed)

/-- Comments are of no other kind. -/
theorem commentKind_ne {kind : TokenKind} (h : kind.closed ≠ .comment) (closed : Bool) :
    commentKind closed ≠ kind := by
  rintro rfl
  exact h (closed_commentKind closed)

/-- What is resumed in a comment is a comment. -/
theorem exists_resumeComment (language : Language) (cs : List Char) :
    ∃ closed, (language.resumeComment cs).2 = commentKind closed :=
  ⟨_, rfl⟩

/-- What is resumed in a constant is a constant. -/
theorem exists_resumeConstant (language : Language) (cs : List Char) :
    ∃ closed, (language.resumeConstant cs).2 = constantKind closed :=
  ⟨_, rfl⟩

/-- A token takes no more characters than there are, and all of them if it has no end. Only where
there are none there is no token. -/
structure TokenFits (cs : List Char) (token : Nat × TokenKind) : Prop where
  le : token.1 ≤ cs.length
  whole : token.2.isOpen = true → token.1 = cs.length
  kind : cs ≠ [] → token.2 ≠ .endOfInput

namespace TokenFits

variable {cs : List Char} {n : Nat} {kind : TokenKind} {closed : Bool}

/-- At the end of the characters the end is found. -/
theorem nil : TokenFits [] (0, .endOfInput) :=
  ⟨Nat.le_refl 0, fun h => absurd h Bool.false_ne_true, fun h => absurd rfl h⟩

/-- A closed token may end anywhere in the characters. -/
theorem of_closed (hkind : kind.isOpen = false ∧ kind ≠ .endOfInput) (hle : n ≤ cs.length) :
    TokenFits cs (n, kind) :=
  ⟨hle, fun h => absurd (hkind.1.symm.trans h) Bool.false_ne_true, fun _ => hkind.2⟩

/-- A constant fits as its body does. -/
theorem of_constant (h : BodyFits cs (n, closed)) : TokenFits cs (n, constantKind closed) :=
  ⟨h.le, fun hopen => h.whole (by simpa using hopen), fun _ => constantKind_ne (by decide) closed⟩

/-- A comment fits as its body does. -/
theorem of_comment (h : BodyFits cs (n, closed)) : TokenFits cs (n, commentKind closed) :=
  ⟨h.le, fun hopen => h.whole (by simpa using hopen), fun _ => commentKind_ne (by decide) closed⟩

end TokenFits

/-- A word is a keyword or a plain token, and closed in both cases. -/
theorem CDialect.wordKind_fits (dialect : CDialect) (word : List Char) {cs : List Char} {n : Nat}
    (h : n ≤ cs.length) : TokenFits cs (n, dialect.wordKind word) := by
  unfold wordKind
  split
  · exact .of_closed (by decide) h
  · exact .of_closed (by decide) h

/-- A token of the C family fits the characters it is scanned from. -/
theorem CDialect.scan_fits (dialect : CDialect) (cs : List Char) :
    TokenFits cs (dialect.scan cs) := by
  cases cs with
  | nil => exact .nil
  | cons c rest =>
    simp only [scan]
    split
    · exact .of_closed (by decide) (List.takeWhile_prefix _).length_le
    · split
      · rename_i hstar
        obtain ⟨more, rfl⟩ := List.head?_eq_some_iff.1 hstar.2
        exact .of_comment ((commentBody_fits more).append [c, '*'])
      · split
        · exact .of_constant ((literalBody_fits c rest).append [c])
        · split
          · exact dialect.wordKind_fits _ (List.takeWhile_prefix _).length_le
          · split
            · exact .of_closed (by decide) (List.takeWhile_prefix _).length_le
            · exact .of_closed (by decide) (Nat.le_add_left 1 rest.length)

namespace Smalltalk

/-- A number is no longer than the characters it is read from. -/
theorem numberLength_le (cs : List Char) : numberLength cs ≤ cs.length := by
  induction cs with
  | nil => exact Nat.le_refl 0
  | cons c rest ih =>
    rw [numberLength]
    split
    · exact Nat.succ_le_succ ih
    · exact Nat.zero_le _

/-- A word of Smalltalk is closed. -/
theorem wordKind_fits (word : List Char) {cs : List Char} {n : Nat} (h : n ≤ cs.length) :
    TokenFits cs (n, wordKind word) := by
  unfold wordKind
  split
  · exact .of_closed (by decide) h
  · exact .of_closed (by decide) h

/-- A symbol fits the characters after its mark. -/
theorem symbolBody_fits (c : Char) (cs : List Char) :
    TokenFits (c :: cs) ((symbolBody cs).1 + 1, (symbolBody cs).2) := by
  cases cs with
  | nil => exact .of_closed (by decide) (Nat.le_refl 1)
  | cons x rest =>
    have hconstant {n : Nat} (h : n ≤ (x :: rest).length) :
        TokenFits (c :: x :: rest) (n + 1, .constant) :=
      .of_closed (by decide) (Nat.succ_le_succ h)
    simp only [symbolBody]
    split
    · exact .of_constant ((stringBody_fits rest).append [c, x])
    · split
      · exact hconstant (List.takeWhile_prefix _).length_le
      · split
        · exact hconstant (List.takeWhile_prefix _).length_le
        · exact .of_closed (by decide) (Nat.succ_le_succ (Nat.zero_le _))

/-- A token of Smalltalk fits the characters it is scanned from. -/
theorem scan_fits (cs : List Char) : TokenFits cs (scan cs) := by
  cases cs with
  | nil => exact .nil
  | cons c rest =>
    simp only [scan]
    split
    · exact .of_comment ((commentBody_fits rest).append [c])
    · split
      · exact .of_constant ((stringBody_fits rest).append [c])
      · split
        · exact symbolBody_fits c rest
        · split
          · rename_i hdollar
            exact .of_closed (by decide) (Nat.succ_le_succ (List.length_pos_iff.2 hdollar.2))
          · split
            · exact .of_closed (by decide) (Nat.le_add_left 1 rest.length)
            · split
              · rename_i hassign
                obtain ⟨more, rfl⟩ := List.head?_eq_some_iff.1 hassign.2
                exact .of_closed (by decide) (Nat.le_add_left 2 more.length)
              · split
                · exact wordKind_fits _ (List.takeWhile_prefix _).length_le
                · split
                  · exact .of_closed (by decide) (numberLength_le _)
                  · exact .of_closed (by decide) (Nat.le_add_left 1 rest.length)

end Smalltalk

/-- A comment that is resumed fits the characters. -/
theorem Language.resumeComment_fits (language : Language) (cs : List Char) :
    TokenFits cs (language.resumeComment cs) := by
  cases language with
  | cFamily dialect => exact .of_comment (CDialect.commentBody_fits cs)
  | smalltalk => exact .of_comment (Smalltalk.commentBody_fits cs)

/-- A constant that is resumed fits the characters. -/
theorem Language.resumeConstant_fits (language : Language) (cs : List Char) :
    TokenFits cs (language.resumeConstant cs) := by
  cases language with
  | cFamily dialect => exact .of_constant (CDialect.literalBody_fits '"' cs)
  | smalltalk => exact .of_constant (Smalltalk.stringBody_fits cs)

/-- In every state the first token fits the characters. -/
theorem Language.first_fits (language : Language) (s : LexState) (cs : List Char) :
    TokenFits cs (language.first s cs) := by
  unfold first
  split
  · exact language.resumeComment_fits cs
  · split
    · exact language.resumeConstant_fits cs
    · cases language with
      | cFamily dialect => exact dialect.scan_fits cs
      | smalltalk => exact Smalltalk.scan_fits cs

/-! ## Runs -/

/-- How a tokenizer divides characters, from a state before them to the state after them. -/
inductive Run (language : Language) : LexState → List Char → List Piece → LexState → Prop
  /-- Nothing is left. -/
  | nil (s : LexState) : Run language s [] [] s
  /-- A blank between tokens. -/
  | blank {s s' : LexState} {c : Char} {cs : List Char} {pieces : List Piece} :
      s.isOpen = false → isBlank c = true → Run language s cs pieces s' →
      Run language s (c :: cs) (⟨[c], none⟩ :: pieces) s'
  /-- A token, which is not preceded by blanks. -/
  | token {s s' : LexState} {cs : List Char} {n : Nat} {kind : TokenKind} {pieces : List Piece} :
      cs ≠ [] → (s.isOpen = false → ∀ c, cs.head? = some c → isBlank c = false) →
      language.first s cs = (n, kind) → Run language (s.after kind) (cs.drop n) pieces s' →
      Run language s cs (⟨cs.take n, some kind⟩ :: pieces) s'

variable {language : Language} {s s' : LexState} {cs : List Char} {pieces : List Piece}

/-- The pieces of a run have all its characters. -/
theorem Run.charactersOf (h : Run language s cs pieces s') : charactersOf pieces = cs := by
  induction h with
  | nil => rfl
  | blank _ _ _ ih => exact congrArg (_ :: ·) ih
  | @token s s' cs n kind pieces _ _ _ _ ih =>
    show cs.take n ++ Markup.Lexis.charactersOf pieces = cs
    rw [ih, List.take_append_drop]

/-- Without characters there are no pieces. -/
theorem Run.eq_nil (h : Run language s [] pieces s') : pieces = [] ∧ s' = s := by
  cases h with
  | nil => exact ⟨rfl, rfl⟩
  | token hcs => exact absurd rfl hcs

/-- A run over characters has pieces. -/
theorem Run.ne_nil (h : Run language s cs pieces s') (hcs : cs ≠ []) : pieces ≠ [] := by
  rintro rfl
  exact hcs h.charactersOf.symm

/-- A token among pieces is the first of the characters that it begins with, from some state. -/
theorem Run.exists_first {earlier later : List Piece} {us : List Char} {kind : TokenKind}
    (h : Run language s cs (earlier ++ ⟨us, some kind⟩ :: later) s') :
    ∃ s₁, language.first s₁ (us ++ Markup.Lexis.charactersOf later) = (us.length, kind) := by
  generalize hpieces : earlier ++ ⟨us, some kind⟩ :: later = pieces at h
  induction h generalizing earlier with
  | nil => exact absurd hpieces (List.append_ne_nil_of_right_ne_nil _ (List.cons_ne_nil _ _))
  | blank _ _ _ ih =>
    cases earlier with
    | nil => cases hpieces
    | cons piece earlier => exact ih (List.cons.inj hpieces).2
  | @token s s' cs n kind pieces _ _ hfirst hrest ih =>
    cases earlier with
    | nil =>
      cases hpieces
      have hfits := language.first_fits s cs
      rw [hfirst] at hfits
      rw [hrest.charactersOf, List.take_append_drop, List.length_take_of_le hfits.le]
      exact ⟨s, hfirst⟩
    | cons piece earlier => exact ih (List.cons.inj hpieces).2

/-- The first element that is left fails the predicate. -/
theorem eq_false_of_head?_dropWhile {α : Type} {p : α → Bool} {xs : List α} {x : α}
    (h : (xs.dropWhile p).head? = some x) : p x = false := by
  have hstop := List.head?_dropWhile_not p xs
  rw [h] at hstop
  exact hstop


namespace Scanner

/-- Where nothing is open the next token comes after the blanks. -/
theorem next_of_closed {position : Nat} (hs : s.isOpen = false) :
    (mk language position cs s).next =
      (mk language (position + byteLength (cs.takeWhile isBlank)) (cs.dropWhile isBlank) s).emit
        (language.scan (cs.dropWhile isBlank)).1 (language.scan (cs.dropWhile isBlank)).2 := by
  have hskip : (mk language position cs s).skip (cs.takeWhile isBlank).length =
      mk language (position + byteLength (cs.takeWhile isBlank)) (cs.dropWhile isBlank) s := by
    simp only [skip, take_length_takeWhile, drop_length_takeWhile]
  obtain ⟨hcomment, hconstant⟩ := Bool.or_eq_false_iff.1 hs
  unfold next
  by_cases hcs : cs = []
  · rw [if_pos hcs, hcs]
    cases language <;> rfl
  · rw [if_neg hcs]
    simp only [hcomment, hconstant, Bool.false_eq_true, if_false, blanks]
    rw [hskip]

/-- Without blanks before it the next token is the first one. -/
theorem next_of_first {position : Nat} (hcs : cs ≠ [])
    (hblank : s.isOpen = false → ∀ c, cs.head? = some c → isBlank c = false) :
    (mk language position cs s).next = (mk language position cs s).emit
      (language.first s cs).1 (language.first s cs).2 := by
  by_cases hopen : s.isOpen = false
  · obtain ⟨hcomment, hconstant⟩ := Bool.or_eq_false_iff.1 hopen
    obtain ⟨c, rest, rfl⟩ := List.exists_cons_of_ne_nil hcs
    have hc : isBlank c = false := hblank hopen c rfl
    rw [next_of_closed hopen, List.takeWhile_cons_of_neg (by rw [hc]; simp),
      List.dropWhile_cons_of_neg (by rw [hc]; simp), Language.first, hcomment, hconstant]
    rfl
  · unfold next Language.first
    rw [if_neg hcs]
    by_cases hcomment : s.inComment = true
    · rw [if_pos hcomment, if_pos hcomment]
    · have hconstant : s.inConstant = true := by
        simpa [LexState.isOpen, hcomment] using hopen
      rw [if_neg hcomment, if_neg hcomment, if_pos hconstant, if_pos hconstant]

/-- A blank before a token is passed over. -/
theorem next_of_blank {position : Nat} {c : Char} (hs : s.isOpen = false)
    (hc : isBlank c = true) :
    (mk language position (c :: cs) s).next =
      (mk language (position + c.utf8Size) cs s).next := by
  rw [next_of_closed hs, next_of_closed hs, List.takeWhile_cons_of_pos hc,
    List.dropWhile_cons_of_pos hc, byteLength_cons, Nat.add_assoc]

/-- At the end of the characters nothing is scanned. -/
theorem all_nil (position : Nat) :
    (mk language position [] s).all = ([], mk language position [] s) := by
  rw [all]
  rfl

/-- The scanner after a number of tokens. -/
def afterTokens (t : Scanner) : Nat → Scanner
  | 0 => t
  | n + 1 => t.next.2.afterTokens n

/-- The tokens up to the end, if there are fewer than a number. -/
def allWithin : Nat → Scanner → Option (List Token × Scanner)
  | 0, _ => none
  | n + 1, t =>
    if t.next.1.kind = .endOfInput then some ([], t.next.2)
    else (allWithin n t.next.2).map fun r => (t.next.1 :: r.1, r.2)

/-- Tokens that are computed in a number of steps are the tokens. -/
theorem all_of_allWithin {n : Nat} {t : Scanner} {r : List Token × Scanner}
    (h : allWithin n t = some r) : t.all = r := by
  induction n generalizing t r with
  | zero => cases h
  | succ n ih =>
    rw [allWithin] at h
    by_cases hkind : t.next.1.kind = .endOfInput
    · rw [if_pos hkind] at h
      cases h
      rw [all]
      exact dif_pos hkind
    · rw [if_neg hkind] at h
      obtain ⟨rest, hrest, rfl⟩ := Option.map_eq_some_iff.1 h
      have hnext : t.next = (t.next.1, t.next.2) := rfl
      rw [all_of_next hnext hkind, ih hrest]

/-- The tokens of characters are those of their run. -/
theorem all_of_run (h : Run language s cs pieces s') (position : Nat) :
    (mk language position cs s).all =
      (tokensAt position pieces, mk language (position + byteLength cs) [] s') := by
  induction h generalizing position with
  | nil => exact all_nil position
  | blank hs hc _ ih =>
    rw [all_congr (next_of_blank hs hc), ih, Nat.add_assoc]
    rfl
  | @token s s' cs n kind pieces hcs hblank hfirst _ ih =>
    have hkind : kind ≠ .endOfInput := by
      have h := (language.first_fits s cs).kind hcs
      rwa [hfirst] at h
    have hnext : (mk language position cs s).next = _ := next_of_first hcs hblank
    rw [hfirst] at hnext
    rw [all_of_next hnext hkind]
    have hrest := ih (position + byteLength (cs.take n))
    have hlength : byteLength (cs.take n) + byteLength (cs.drop n) = byteLength cs := by
      rw [← byteLength_append, List.take_append_drop]
    rw [Nat.add_assoc, hlength] at hrest
    exact congrArg
      (fun r => (Token.mk kind position (position + byteLength (cs.take n)) :: r.1, r.2)) hrest

end Scanner

/-- All characters have a run, whatever is open before them. -/
theorem exists_run (language : Language) (s : LexState) (cs : List Char) :
    ∃ pieces s', Run language s cs pieces s' := by
  generalize hload : (Scanner.mk language 0 cs s).load = load
  induction load using Nat.strongRecOn generalizing s cs with
  | _ load ih =>
    subst hload
    cases cs with
    | nil => exact ⟨[], s, .nil s⟩
    | cons c rest =>
      by_cases hblank : s.isOpen = false ∧ isBlank c = true
      · obtain ⟨pieces, s', hrest⟩ := ih (Scanner.mk language 0 rest s).load
          (by simp only [Scanner.load, List.length_cons]; omega) s rest rfl
        exact ⟨_, s', .blank hblank.1 hblank.2 hrest⟩
      · have hhead : s.isOpen = false → ∀ x, (c :: rest).head? = some x → isBlank x = false := by
          intro hs x hx
          cases hx
          simpa [hs] using hblank
        -- a token lowers the load
        have hcs : c :: rest ≠ [] := List.cons_ne_nil c rest
        have hnext : (Scanner.mk language 0 (c :: rest) s).next = _ :=
          Scanner.next_of_first hcs hhead
        have hkind := (language.first_fits s (c :: rest)).kind hcs
        obtain ⟨pieces, s', hrest⟩ := ih _ (Scanner.next_load_lt hnext hkind)
          (s.after (language.first s (c :: rest)).2)
          ((c :: rest).drop (language.first s (c :: rest)).1) rfl
        exact ⟨_, s', .token hcs hhead rfl hrest⟩

end Markup.Lexis
