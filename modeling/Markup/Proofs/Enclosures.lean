import Markup.Proofs.Lexis.Ranges

/-!
# Text in a literal or a comment

Every text can be written as a literal: in the C family a backslash stands before each character
that would end the literal and before each backslash, in Smalltalk each mark is written twice. A
comment can hold every text that does not end it early. What is written like this is read as one
token, up to its own end and no further, and what follows is read as if it stood alone
(`leads_enclosed`).
-/

namespace Markup.Lexis

open Markup.Text

/-! ## Text after a token -/

/-- A token a number of bytes further on. -/
def Token.shift (n : Nat) (t : Token) : Token :=
  ⟨t.kind, t.start + n, t.stop + n⟩

/-- The tokens of pieces move with the first of them. -/
theorem tokensAt_add (position n : Nat) (pieces : List Piece) :
    tokensAt (position + n) pieces = (tokensAt position pieces).map (.shift n) := by
  induction pieces generalizing position with
  | nil => rfl
  | cons piece pieces ih =>
    have hstop (length : Nat) : position + n + length = position + length + n := by omega
    obtain ⟨us, kind?⟩ := piece
    cases kind? with
    | none => rw [tokensAt_none, tokensAt_none, hstop, ih]
    | some kind =>
      rw [tokensAt_some, tokensAt_some, List.map_cons, hstop, ih]
      rfl

/-- The first part of a text is one token, and the tokens of the rest and the state after them are
those of the rest alone. -/
structure Leads (language : Language) (kind : TokenKind) (first rest : String) : Prop where
  /-- The tokens of the whole. -/
  tokens : tokenize language (first ++ rest) =
    ⟨kind, 0, byteLength first.toList⟩ ::
      (tokenize language rest).map (.shift (byteLength first.toList))
  /-- The state after the whole. -/
  state : (Tokenizer.ofText language (first ++ rest)).all.2.state =
    (Tokenizer.ofText language rest).all.2.state

/-- A first token that leaves nothing open does not matter to what follows. -/
theorem leads_of_scan {language : Language} {kind : TokenKind} {c : Char} {cs : List Char}
    {rest : String} (hc : isBlank c = false)
    (hscan : language.scan (c :: (cs ++ rest.toList)) = (cs.length + 1, kind))
    (hafter : LexState.initial.after kind = .initial) :
    Leads language kind (.ofList (c :: cs)) rest := by
  obtain ⟨pieces, s', hrest⟩ := exists_run language .initial rest.toList
  have htoken : Run language .initial (c :: cs ++ rest.toList)
      (⟨(c :: cs ++ rest.toList).take (c :: cs).length, some kind⟩ :: pieces) s' := by
    refine .token (List.cons_ne_nil c _) (fun _ x hx => ?_) hscan ?_
    · cases hx
      exact hc
    · rwa [hafter, List.length_cons, ← List.length_cons (a := c), List.drop_left]
  rw [List.take_left] at htoken
  have htext : (String.ofList (c :: cs) ++ rest).toList = c :: cs ++ rest.toList := by
    rw [String.toList_append, String.toList_ofList]
  obtain ⟨hwhole, hlast⟩ := tokenize_of_run (htext ▸ htoken)
  obtain ⟨htokens, hstate⟩ := tokenize_of_run hrest
  constructor
  · rw [hwhole, htokens, tokensAt_some, tokensAt_add, String.toList_ofList, Nat.zero_add]
  · rw [hlast, hstate]

/-! ## The C family -/

namespace CDialect

/-- A character of a literal, after a backslash if it would end the literal or escape another
character. -/
def escape (mark c : Char) : List Char :=
  if c = '\\' ∨ c = mark ∨ isLineEnd c = true then ['\\', c] else [c]

/-- The literal of a text between marks. -/
def quote (mark : Char) (text : String) : String :=
  .ofList (mark :: (text.toList.flatMap (escape mark) ++ [mark]))

/-- The comment of a text. -/
def comment (text : String) : String :=
  .ofList ('/' :: '*' :: (text.toList ++ ['*', '/']))

variable {mark : Char}

/-- What a text is escaped to does not go on with a line end. -/
theorem head?_escaped_ne (hmark : isLineEnd mark = false) (text rest : List Char) :
    (text.flatMap (escape mark) ++ mark :: rest).head? ≠ some '\n' := by
  cases text with
  | nil =>
    intro h
    obtain rfl := Option.some.inj h
    cases hmark
  | cons c text =>
    rw [List.flatMap_cons, escape]
    split
    · exact fun h => absurd (Option.some.inj h) (by decide)
    · rename_i hc
      intro h
      obtain rfl := Option.some.inj h
      exact hc (.inr (.inr rfl))

/-- A literal ends at the first mark after the escaped text. -/
theorem literalBody_escaped (hmark : isLineEnd mark = false) (hescape : mark ≠ '\\')
    (text rest : List Char) :
    literalBody mark (text.flatMap (escape mark) ++ mark :: rest) =
      ((text.flatMap (escape mark)).length + 1, true) := by
  induction text with
  | nil => rw [List.flatMap_nil, List.nil_append, literalBody_cons hescape, if_pos rfl]; rfl
  | cons c text ih =>
    rw [List.flatMap_cons, List.append_assoc, List.length_append, escape]
    split
    · rw [List.cons_append, List.singleton_append,
        literalBody_escape fun h => head?_escaped_ne hmark text rest h.2, ih]
      simp only [List.length_cons, List.length_nil, Prod.mk.injEq, and_true]
      omega
    · rename_i hc
      rw [not_or, not_or] at hc
      rw [List.singleton_append, literalBody_cons hc.1, if_neg hc.2.1, if_neg hc.2.2, ih]
      simp only [List.length_cons, List.length_nil, Prod.mk.injEq, and_true]
      omega

/-- A mark begins a literal. -/
theorem scan_mark (dialect : CDialect) (h : mark = '"' ∨ mark = '\'') (rest : List Char) :
    dialect.scan (mark :: rest) =
      ((literalBody mark rest).1 + 1, constantKind (literalBody mark rest).2) := by
  have hslash : mark ≠ '/' := by
    rcases h with rfl | rfl <;> decide
  rw [scan, if_neg fun hc => hslash hc.1, if_neg fun hc => hslash hc.1, if_pos h]

/-- A text between marks is a literal, up to its own end. -/
theorem leads_quote (dialect : CDialect) (h : mark = '"' ∨ mark = '\'') (text rest : String) :
    Leads (.cFamily dialect) .constant (quote mark text) rest := by
  have hline : isLineEnd mark = false := by rcases h with rfl | rfl <;> rfl
  have hescape : mark ≠ '\\' := by rcases h with rfl | rfl <;> decide
  have hblank : isBlank mark = false := by rcases h with rfl | rfl <;> decide
  refine leads_of_scan hblank ?_ rfl
  show dialect.scan (mark :: (text.toList.flatMap (escape mark) ++ [mark] ++ rest.toList)) = _
  rw [List.append_assoc, List.singleton_append, scan_mark dialect h,
    literalBody_escaped hline hescape, List.length_append]
  rfl

/-- A comment ends at the first `*/`. -/
theorem commentBody_closed {text : List Char}
    (h : ∀ before after, text ++ ['*', '/'] = before ++ '*' :: '/' :: after → after = [])
    (rest : List Char) :
    commentBody (text ++ '*' :: '/' :: rest) = (text.length + 2, true) := by
  induction text with
  | nil => rfl
  | cons c text ih =>
    have hend : ¬(c = '*' ∧ (text ++ '*' :: '/' :: rest).head? = some '/') := by
      rintro ⟨rfl, hslash⟩
      cases text with
      | nil => cases hslash
      | cons x text =>
        -- the text would begin with an end
        obtain rfl := Option.some.inj hslash
        exact absurd (h [] (text ++ ['*', '/']) rfl) (by simp)
    have htext := ih fun before after hsplit => h (c :: before) after (congrArg (c :: ·) hsplit)
    rw [List.cons_append, commentBody_cons hend, htext, List.length_cons, Nat.add_right_comm]

/-- A text between `/*` and `*/` is a comment, up to its own end. -/
theorem leads_comment (dialect : CDialect) {text : String}
    (h : ∀ before after, text.toList ++ ['*', '/'] = before ++ '*' :: '/' :: after → after = [])
    (rest : String) : Leads (.cFamily dialect) .comment (comment text) rest := by
  refine leads_of_scan (by decide) ?_ rfl
  show dialect.scan ('/' :: '*' :: (text.toList ++ ['*', '/'] ++ rest.toList)) = _
  rw [List.append_assoc, scan, if_neg (by simp), if_pos ⟨rfl, rfl⟩]
  simp only [List.tail_cons, List.cons_append, List.nil_append, commentBody_closed h,
    List.length_cons, List.length_append, List.length_nil]
  rfl

end CDialect

/-! ## Smalltalk -/

namespace Smalltalk

/-- A character of a string; the mark is written twice. -/
def double (c : Char) : List Char :=
  if c = '\'' then ['\'', '\''] else [c]

/-- The string of a text. -/
def quote (text : String) : String :=
  .ofList ('\'' :: (text.toList.flatMap double ++ ['\'']))

/-- A string ends at the first mark that stands alone. -/
theorem stringBody_doubled (text : List Char) {rest : List Char} (h : rest.head? ≠ some '\'') :
    stringBody (text.flatMap double ++ '\'' :: rest) =
      ((text.flatMap double).length + 1, true) := by
  induction text with
  | nil => exact stringBody_mark h
  | cons c text ih =>
    rw [List.flatMap_cons, List.append_assoc, List.length_append, double]
    split
    · rw [List.cons_append, List.singleton_append, stringBody_pair, ih]
      simp only [List.length_cons, List.length_nil, Prod.mk.injEq, and_true]
      omega
    · rename_i hc
      rw [List.singleton_append, stringBody_cons hc, ih]
      simp only [List.length_cons, List.length_nil, Prod.mk.injEq, and_true]
      omega

/-- A text between apostrophes is a string, up to its own end. -/
theorem leads_quote (text : String) {rest : String} (h : rest.toList.head? ≠ some '\'') :
    Leads .smalltalk .constant (quote text) rest := by
  refine leads_of_scan (by decide) ?_ rfl
  show scan ('\'' :: (text.toList.flatMap double ++ ['\''] ++ rest.toList)) = _
  rw [List.append_assoc, List.singleton_append, scan, if_neg (by decide), if_pos rfl]
  simp only [stringBody_doubled _ h, List.length_append]
  rfl

end Smalltalk

/-- Every text is one token as a literal, and as a comment if it does not end the comment early. -/
theorem leads_enclosed (s r : String) :
    (∀ dialect, ∀ mark ∈ ['"', '\''],
        Leads (.cFamily dialect) .constant (CDialect.quote mark s) r) ∧
      (r.toList.head? ≠ some '\'' → Leads .smalltalk .constant (Smalltalk.quote s) r) ∧
      ∀ dialect, (∀ before after,
          s.toList ++ ['*', '/'] = before ++ '*' :: '/' :: after → after = []) →
        Leads (.cFamily dialect) .comment (CDialect.comment s) r := by
  refine ⟨fun dialect mark hmark => ?_, fun hr => ?_, fun dialect hs => ?_⟩
  · exact dialect.leads_quote (by simpa using hmark) s r
  · exact Smalltalk.leads_quote s hr
  · exact dialect.leads_comment hs r

/-- A text with a mark, a line end and a star at its end. -/
theorem leads_enclosed_marks :
    ("\"x".toList.head? ≠ some '\'' ∧ ∀ before after,
        "'\r\n*".toList ++ ['*', '/'] = before ++ '*' :: '/' :: after → after = []) ∧
      Leads (.cFamily .java) .constant "'\\'\\\r\\\n*'" "\"x" ∧
      Leads .smalltalk .constant "'''\r\n*'" "\"x" ∧
      Leads (.cFamily .ansiC) .comment "/*'\r\n**/" "\"x" := by
  have hr : "\"x".toList.head? ≠ some '\'' := by decide +kernel
  have hs : ∀ before after,
      "'\r\n*".toList ++ ['*', '/'] = before ++ '*' :: '/' :: after → after = [] := by
    intro before after h
    rcases before with _ | ⟨_, _ | ⟨_, _ | ⟨_, _ | ⟨_, _ | ⟨_, before⟩⟩⟩⟩⟩ <;> simp at h
    · exact h.2.2.2.2
    · have hlength := congrArg List.length h.2.2.2.2.2
      simp only [List.length_append, List.length_cons, List.length_nil] at hlength
      omega
  obtain ⟨hquote, hstring, hcomment⟩ := leads_enclosed "'\r\n*" "\"x"
  have hquoted : CDialect.quote '\'' "'\r\n*" = "'\\'\\\r\\\n*'" := by decide +kernel
  have hdoubled : Smalltalk.quote "'\r\n*" = "'''\r\n*'" := by decide +kernel
  have hcommented : CDialect.comment "'\r\n*" = "/*'\r\n**/" := by decide +kernel
  refine ⟨⟨hr, hs⟩, ?_, ?_, ?_⟩
  · rw [← hquoted]
    exact hquote .java '\'' (by simp)
  · rw [← hdoubled]
    exact hstring hr
  · rw [← hcommented]
    exact hcomment .ansiC hs

end Markup.Lexis
