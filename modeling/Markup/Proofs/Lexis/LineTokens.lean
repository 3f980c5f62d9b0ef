import Markup.Proofs.Lexis.Runs

/-!
# Tokens at the end of a line

The first token of a text that begins with a line is compared with the first token of the line
alone (`TokenAcross`). Most tokens end in the line, and then what follows the line does not matter.
A comment or a literal that is open at the end of the line goes on with the next line, and what it
is there is what the line resumes with. This fails for literals that a line end has a part in
other than being text of a string; `Language.Settles` says which characters it fails for.
-/

namespace Markup.Lexis

open Markup.Text

/-! ## Literals that lines do not change -/

/-- Whether a token that is read from a state, if it is a literal, leaves a character the class that
it has line by line. Up to the character there is `before` from the start of the literal, and
`after` follows the literal. In the C family this matters where the character is on a later line:
no line end must cut the literal off, so that on its own it has no end, and a literal that begins
with an apostrophe must not go on after a line feed, because literals are resumed as if they had
begun with a quotation mark. In Smalltalk this matters for a `$`, which must not stand before a line
end. -/
def Language.Settles (language : Language) (s : LexState) (before literal after : List Char)
    (kind : TokenKind) : Prop :=
  kind.closed = .constant →
    match language with
    | cFamily _ => '\n' ∈ before →
        (beginsLineEnd after = true → (language.first s literal).2 = kind) ∧
          (s.inConstant = false → literal.head? = some '\'' → '\n' ∉ literal)
    | smalltalk => before = [] → s.inConstant = false → literal.head? = some '$' →
        beginsLineEnd (literal.tail ++ after) = false

/-- How the first token of a text is related to the first token of its first line. -/
inductive TokenAcross (language : Language) (s : LexState) (line eol rest : List Char) : Prop
  /-- It ends in the line. -/
  | within : line ≠ [] → language.first s (line ++ (eol ++ rest)) = language.first s line →
      TokenAcross language s line eol rest
  /-- It is a comment that goes on after the line. -/
  | comment : language.first s line = (line.length, .openComment) →
      language.first s (line ++ (eol ++ rest)) =
        (line.length + (eol.length + (language.resumeComment rest).1),
          (language.resumeComment rest).2) →
      TokenAcross language s line eol rest
  /-- It is a literal that goes on after the line. -/
  | constant : s.inComment = false → language.first s line = (line.length, .openConstant) →
      language.first s (line ++ (eol ++ rest)) =
        (line.length + (eol.length + (language.resumeConstant rest).1),
          (language.resumeConstant rest).2) →
      (∀ m kind before after, '\n' ∈ eol →
        language.Settles s (line ++ (eol ++ before)) (line ++ (eol ++ rest.take m)) after kind →
        language.Settles { s with inConstant := true } before (rest.take m) after kind) →
      TokenAcross language s line eol rest
  /-- It is a literal that the characters of later lines do not settle with. -/
  | unsettled (n : Nat) (kind : TokenKind) : s.inComment = false →
      language.first s line = (line.length, .openConstant) →
      language.first s (line ++ (eol ++ rest)) = (n, kind) → line.length ≤ n →
      kind.closed = .constant →
      (∀ before, '\n' ∈ before → ¬language.Settles s before ((line ++ (eol ++ rest)).take n)
        ((line ++ (eol ++ rest)).drop n) kind) →
      TokenAcross language s line eol rest
  /-- It is a sign that the first character of the line end makes a literal. -/
  | sign (c x : Char) (eol' : List Char) : line = [c] → eol = x :: eol' → s.isOpen = false →
      language.first s line = (1, .token) →
      language.first s (line ++ (eol ++ rest)) = (2, .constant) →
      ¬language.Settles s [] [c, x] (eol' ++ rest) .constant →
      TokenAcross language s line eol rest

section

variable {s : LexState} {line eol rest : List Char}

/-! ## Comments -/

/-- A token that goes on like a comment after its first characters. -/
theorem TokenAcross.of_comment {language : Language} {body : List Char → Nat × Bool}
    (first : List Char)
    (hresume : ∀ xs, language.resumeComment xs = ((body xs).1, commentKind (body xs).2))
    (hfirst : ∀ xs, language.first s (first ++ xs) =
      (first.length + (body xs).1, commentKind (body xs).2))
    (h : BodyAcross body line eol rest) : TokenAcross language s (first ++ line) eol rest := by
  cases h with
  | within hne hsame =>
    refine .within (List.append_ne_nil_of_right_ne_nil _ hne) ?_
    rw [List.append_assoc, hfirst, hfirst, hsame]
  | across hopen hwhole =>
    refine .comment ?_ ?_
    · rw [hfirst, hopen, List.length_append]
      rfl
    · rw [List.append_assoc, hfirst, hwhole, hresume, List.length_append, Nat.add_assoc]

/-! ## Literals -/

theorem resumeConstant_cFamily (dialect : CDialect) (cs : List Char) :
    (Language.cFamily dialect).resumeConstant cs =
      ((CDialect.literalBody '"' cs).1, constantKind (CDialect.literalBody '"' cs).2) := rfl

/-- A token of Smalltalk that goes on like a string after its first characters. -/
theorem TokenAcross.of_string (first : List Char) (hs : s.inComment = false)
    (hfirst : ∀ xs, Language.smalltalk.first s (first ++ xs) =
      (first.length + (Smalltalk.stringBody xs).1, constantKind (Smalltalk.stringBody xs).2))
    (h : LineBreak line eol rest) : TokenAcross .smalltalk s (first ++ line) eol rest := by
  cases Smalltalk.stringAcross h with
  | within hne hsame =>
    refine .within (List.append_ne_nil_of_right_ne_nil _ hne) ?_
    rw [List.append_assoc, hfirst, hfirst, hsame]
  | across hopen hwhole =>
    refine .constant hs ?_ ?_ fun m kind before after _ _ _ _ hresumed => ?_
    · rw [hfirst, hopen, List.length_append]
      rfl
    · rw [List.append_assoc, hfirst, hwhole, List.length_append, Nat.add_assoc]
      rfl
    · cases hresumed

/-- A token of the C family that goes on like a literal after its first characters. -/
theorem TokenAcross.of_literal {dialect : CDialect} (first : List Char) (mark : Char)
    (hmark : CDialect.isLineEnd mark = false) (hs : s.inComment = false)
    (hfirst : ∀ xs, (Language.cFamily dialect).first s (first ++ xs) =
      (first.length + (CDialect.literalBody mark xs).1,
        constantKind (CDialect.literalBody mark xs).2))
    (hquote : mark ≠ '"' → s.inConstant = false ∧ first.head? = some '\'')
    (hne : first ++ line = [] → eol ≠ []) (h : LineBreak line eol rest) :
    TokenAcross (.cFamily dialect) s (first ++ line) eol rest := by
  rcases CDialect.literalAcross hmark h with hsame |
    ⟨taken, left, rfl, hleft, hopen, hpart, hcut⟩ | ⟨hopen, hfeed, hrest⟩
  · refine .within ?_ ?_
    · -- a line end in place of a literal would end it
      intro hnil
      obtain ⟨c, eol, rfl⟩ := List.exists_cons_of_ne_nil (hne hnil)
      rw [(List.append_eq_nil_iff.1 hnil).2, List.nil_append, List.cons_append,
        CDialect.literalBody_lineEnd hmark (h.isLineEnd_of_mem List.mem_cons_self)] at hsame
      cases hsame
    · rw [List.append_assoc, hfirst, hfirst, hsame]
  · refine .unsettled (first.length + (line.length + taken.length)) .constant hs ?_ ?_ ?_ rfl
      fun before hfeed hsettles => ?_
    · rw [hfirst, hopen, List.length_append]
      rfl
    · rw [List.append_assoc, hfirst, hcut]
      rfl
    · rw [List.length_append]
      omega
    · -- cut off from what follows, the literal has no end
      simp only [List.append_assoc, List.take_length_add_append, List.drop_length_add_append,
        List.take_left, List.drop_left] at hsettles
      have hkind := (hsettles rfl hfeed).1 (h.beginsLineEnd rfl hleft)
      rw [hfirst, hpart] at hkind
      cases hkind
  · have hwhole := hrest rest.length
    rw [List.take_length] at hwhole
    by_cases hresumed : mark = '"' ∨ rest = []
    · -- what is left of the literal is read as it is resumed
      have hmarks (m : Nat) : CDialect.literalBody mark (rest.take m) =
          CDialect.literalBody '"' (rest.take m) := by
        rcases hresumed with rfl | rfl
        · rfl
        · rw [List.take_nil]
          rfl
      refine .constant hs ?_ ?_ fun m kind before after hfeed hsettles hconstant _ =>
        ⟨fun hafter => ?_, fun hnot => by cases hnot⟩
      · rw [hfirst, hopen, List.length_append]
        rfl
      · have hmark := hmarks rest.length
        rw [List.take_length] at hmark
        rw [List.append_assoc, hfirst, hwhole, hmark, List.length_append, resumeConstant_cFamily]
        simp only [Nat.add_assoc]
      · have hkind := (hsettles hconstant (by simp [hfeed])).1 hafter
        rw [List.append_assoc, hfirst, hrest, hmarks] at hkind
        rw [← hkind, Language.first, if_neg (by simp [hs]), if_pos rfl, resumeConstant_cFamily]
    · -- it is resumed as if it had begun with the other mark
      rw [not_or] at hresumed
      obtain ⟨hquoted, hhead⟩ := hquote hresumed.1
      obtain ⟨rest', rfl⟩ := List.head?_eq_some_iff.1 hhead
      have hfeed : '\n' ∈ eol := hfeed.resolve_right hresumed.2
      refine .unsettled (('\'' :: rest').length +
        (line.length + (eol.length + (CDialect.literalBody mark rest).1)))
        (constantKind (CDialect.literalBody mark rest).2) hs ?_ ?_ ?_ (closed_constantKind _)
        fun before hbefore hsettles => ?_
      · rw [hfirst, hopen, List.length_append]
        rfl
      · rw [List.append_assoc, hfirst, hwhole]
        simp only [Nat.add_assoc]
      · rw [List.length_append]
        omega
      · rw [List.append_assoc, List.take_length_add_append, List.take_length_add_append,
          List.take_length_add_append] at hsettles
        refine (hsettles (closed_constantKind _) hbefore).2 hquoted rfl ?_
        simp [hfeed]

/-! ## Where nothing is open -/

/-- There are two characters that end lines. -/
theorem isLineEnd_cases {c : Char} (h : CDialect.isLineEnd c = true) : c = '\n' ∨ c = '\r' := by
  simpa [CDialect.isLineEnd] using h

/-- What follows a line is nothing, or it begins with its line end. -/
theorem LineBreak.tail_cases (h : LineBreak line eol rest) :
    eol ++ rest = [] ∨ ∃ tail, eol ++ rest = '\n' :: tail ∨ eol ++ rest = '\r' :: tail := by
  cases htail : eol ++ rest with
  | nil => exact .inl rfl
  | cons c tail =>
    rcases isLineEnd_cases (h.isLineEnd_of_head (by rw [htail]; rfl)) with rfl | rfl
    · exact .inr ⟨tail, .inl rfl⟩
    · exact .inr ⟨tail, .inr rfl⟩

/-- A condition that fails for line ends takes characters from the line only. -/
theorem takeWhile_line {p : Char → Bool} (h : LineBreak line eol rest) (hfeed : p '\n' = false)
    (hreturn : p '\r' = false) : (line ++ (eol ++ rest)).takeWhile p = line.takeWhile p := by
  have htail : (eol ++ rest).takeWhile p = [] := by
    rcases h.tail_cases with htail | ⟨tail, htail | htail⟩
    · rw [htail]
      rfl
    · rw [htail, List.takeWhile_cons_of_neg (by simp [hfeed])]
    · rw [htail, List.takeWhile_cons_of_neg (by simp [hreturn])]
  rw [List.takeWhile_append, htail, List.append_nil]
  split
  · rename_i hall
    exact (List.takeWhile_prefix p).eq_of_length hall |>.symm
  · rfl

/-- What is no line end begins what follows only if it is in the line. -/
theorem head?_line {c : Char} (h : LineBreak line eol rest)
    (hc : CDialect.isLineEnd c = false) :
    ((line ++ (eol ++ rest)).head? = some c) = (line.head? = some c) := by
  cases line with
  | nil =>
    refine propext ⟨fun hhead => ?_, fun hhead => by cases hhead⟩
    rw [h.isLineEnd_of_head hhead] at hc
    cases hc
  | cons x line => rfl

namespace CDialect

/-- Other tokens than comments with two ends and literals end in the line. -/
theorem scan_line (dialect : CDialect) {c : Char} (h : LineBreak line eol rest)
    (hcomment : ¬(c = '/' ∧ line.head? = some '*')) (hliteral : ¬(c = '"' ∨ c = '\'')) :
    dialect.scan (c :: (line ++ (eol ++ rest))) = dialect.scan (c :: line) := by
  have hword : (line ++ (eol ++ rest)).takeWhile isIdentifierChar =
      line.takeWhile isIdentifierChar :=
    takeWhile_line h (by decide) (by decide)
  have hnumber : (line ++ (eol ++ rest)).takeWhile isNumberChar = line.takeWhile isNumberChar :=
    takeWhile_line h (by decide) (by decide)
  have hrest : (line ++ (eol ++ rest)).takeWhile (!isLineEnd ·) =
      line.takeWhile (!isLineEnd ·) :=
    takeWhile_line h rfl rfl
  have hslash := head?_line (c := '/') h rfl
  have hstar := head?_line (c := '*') h rfl
  simp only [scan, List.takeWhile_cons, hword, hnumber, hrest, hslash, hstar, if_neg hcomment,
    if_neg hliteral]

/-- The first token of a line of the C family. -/
theorem tokenAcross (dialect : CDialect) {c : Char} (hs : s.isOpen = false)
    (h : LineBreak (c :: line) eol rest) :
    TokenAcross (.cFamily dialect) s (c :: line) eol rest := by
  obtain ⟨hcomment, hconstant⟩ := Bool.or_eq_false_iff.1 hs
  have hfirst (cs : List Char) : (Language.cFamily dialect).first s cs = dialect.scan cs := by
    rw [Language.first, hcomment, hconstant]
    rfl
  by_cases hstar : c = '/' ∧ line.head? = some '*'
  · obtain ⟨rfl, hhead⟩ := hstar
    obtain ⟨line, rfl⟩ := List.head?_eq_some_iff.1 hhead
    refine .of_comment ['/', '*'] (fun _ => rfl) (fun xs => ?_) (commentAcross h.of_cons.of_cons)
    rw [hfirst, Nat.add_comm]
    rfl
  · by_cases hmark : c = '"' ∨ c = '\''
    · refine .of_literal [c] c ?_ hcomment (fun xs => ?_) (fun hne => ?_) ?_
        h.of_cons
      · rcases hmark with rfl | rfl <;> rfl
      · rw [hfirst, Nat.add_comm]
        rcases hmark with rfl | rfl <;> rfl
      · exact ⟨hconstant, congrArg some (hmark.resolve_left hne)⟩
      · exact fun hnil => by cases hnil
    · refine .within (List.cons_ne_nil c line) ?_
      rw [hfirst, hfirst]
      exact dialect.scan_line h.of_cons hstar hmark

end CDialect

namespace Smalltalk

/-- A number ends in the line. -/
theorem numberLength_line (h : LineBreak line eol rest) :
    numberLength (line ++ (eol ++ rest)) = numberLength line := by
  induction line with
  | nil =>
    rw [List.nil_append]
    rcases h.tail_cases with htail | ⟨tail, htail | htail⟩ <;> rw [htail] <;> rfl
  | cons c line ih =>
    have hdigit : (line ++ (eol ++ rest)).head?.any Char.isDigit = line.head?.any Char.isDigit := by
      cases line with
      | nil =>
        rw [List.nil_append]
        rcases h.tail_cases with htail | ⟨tail, htail | htail⟩ <;> rw [htail] <;> rfl
      | cons x line => rfl
    rw [List.cons_append, numberLength, numberLength, hdigit, ih h.of_cons]

/-- A symbol that is no string ends in the line. -/
theorem symbolBody_line (h : LineBreak line eol rest) (hstring : line.head? ≠ some '\'') :
    symbolBody (line ++ (eol ++ rest)) = symbolBody line := by
  cases line with
  | nil =>
    rw [List.nil_append]
    rcases h.tail_cases with htail | ⟨tail, htail | htail⟩ <;> rw [htail] <;> rfl
  | cons c line =>
    have hsymbol : (c :: line ++ (eol ++ rest)).takeWhile isSymbolChar =
        (c :: line).takeWhile isSymbolChar :=
      takeWhile_line h (by decide) (by decide)
    have hselector : (c :: line ++ (eol ++ rest)).takeWhile isSelectorChar =
        (c :: line).takeWhile isSelectorChar :=
      takeWhile_line h (by decide) (by decide)
    have hc : c ≠ '\'' := fun hc => hstring (congrArg some hc)
    rw [List.cons_append] at hsymbol hselector ⊢
    simp only [symbolBody, if_neg hc, hsymbol, hselector]

/-- Other tokens than comments and strings end in the line, unless `$` is the last character. -/
theorem scan_line {c : Char} (h : LineBreak (c :: line) eol rest)
    (hmark : ¬(c = '"' ∨ c = '\'')) (hstring : ¬(c = '#' ∧ line.head? = some '\''))
    (hdollar : ¬(c = '$' ∧ line = [])) :
    scan (c :: (line ++ (eol ++ rest))) = scan (c :: line) := by
  rw [not_or] at hmark
  have hsymbol (hc : c = '#') : symbolBody (line ++ (eol ++ rest)) = symbolBody line :=
    symbolBody_line h.of_cons fun hhead => hstring ⟨hc, hhead⟩
  have hword : (line ++ (eol ++ rest)).takeWhile isLetterOrNumeral =
      line.takeWhile isLetterOrNumeral :=
    takeWhile_line h.of_cons (by decide) (by decide)
  have hnumber : numberLength (c :: (line ++ (eol ++ rest))) = numberLength (c :: line) :=
    numberLength_line h
  have hassign := head?_line (c := '=') h.of_cons rfl
  have hafter : (c = '$' ∧ line ++ (eol ++ rest) ≠ []) = (c = '$' ∧ line ≠ []) := by
    refine propext ⟨fun ⟨hc, _⟩ => ⟨hc, fun hnil => hdollar ⟨hc, hnil⟩⟩, fun ⟨hc, hne⟩ => ⟨hc, ?_⟩⟩
    exact List.append_ne_nil_of_left_ne_nil hne _
  by_cases hc : c = '#'
  · simp only [scan, if_neg hmark.1, if_neg hmark.2, if_pos hc, hsymbol hc]
  · simp only [scan, if_neg hmark.1, if_neg hmark.2, if_neg hc, hafter, List.takeWhile_cons, hword,
      hnumber, hassign]

/-- The first token of a line of Smalltalk. -/
theorem tokenAcross {c : Char} (hs : s.isOpen = false) (h : LineBreak (c :: line) eol rest) :
    TokenAcross .smalltalk s (c :: line) eol rest := by
  obtain ⟨hcomment, hconstant⟩ := Bool.or_eq_false_iff.1 hs
  have hfirst (cs : List Char) : Language.smalltalk.first s cs = scan cs := by
    rw [Language.first, hcomment, hconstant]
    rfl
  by_cases hquote : c = '"'
  · refine .of_comment [c] (fun _ => rfl) (fun xs => ?_) (commentAcross h.of_cons)
    rw [hfirst, Nat.add_comm, hquote]
    rfl
  · by_cases hmark : c = '\''
    · refine .of_string [c] hcomment (fun xs => ?_) h.of_cons
      rw [hfirst, Nat.add_comm, hmark]
      rfl
    · by_cases hstring : c = '#' ∧ line.head? = some '\''
      · obtain ⟨rfl, hhead⟩ := hstring
        obtain ⟨line, rfl⟩ := List.head?_eq_some_iff.1 hhead
        refine .of_string ['#', '\''] hcomment (fun xs => ?_) h.of_cons.of_cons
        rw [hfirst, Nat.add_comm]
        rfl
      · by_cases hdollar : c = '$' ∧ line = []
        · obtain ⟨rfl, rfl⟩ := hdollar
          cases eol with
          | nil =>
            rw [h.rest_of_nil rfl]
            exact .within (List.cons_ne_nil _ _) rfl
          | cons x eol =>
            -- with the line end behind it the sign begins a literal
            refine .sign '$' x eol rfl rfl hs ?_ ?_ fun hsettles => ?_
            · rw [hfirst]
              rfl
            · rw [hfirst]
              rfl
            · have hnot := hsettles rfl rfl hconstant rfl
              have hends := h.beginsLineEnd (List.nil_append _).symm (List.cons_ne_nil x eol)
              rw [show beginsLineEnd (x :: eol ++ rest) = false from hnot] at hends
              cases hends
        · refine .within (List.cons_ne_nil c line) ?_
          rw [hfirst, hfirst]
          exact scan_line h (not_or.2 ⟨hquote, hmark⟩) hstring hdollar

end Smalltalk

/-- The first token of a line, unless there is neither a line nor anything open. -/
theorem tokenAcross (language : Language) (h : LineBreak line eol rest)
    (hclosed : s.isOpen = false → line ≠ []) (hnil : line = [] → eol ≠ []) :
    TokenAcross language s line eol rest := by
  by_cases hcomment : s.inComment = true
  · have hfirst (xs : List Char) : language.first s xs = language.resumeComment xs :=
      if_pos hcomment
    cases language with
    | cFamily dialect =>
      refine .of_comment [] (fun _ => rfl) (fun xs => ?_) (CDialect.commentAcross h)
      rw [List.nil_append, hfirst, List.length_nil, Nat.zero_add]
      rfl
    | smalltalk =>
      refine .of_comment [] (fun _ => rfl) (fun xs => ?_) (Smalltalk.commentAcross h)
      rw [List.nil_append, hfirst, List.length_nil, Nat.zero_add]
      rfl
  · rw [Bool.not_eq_true] at hcomment
    cases hconstant : s.inConstant with
    | true =>
      have hfirst (xs : List Char) : language.first s xs = language.resumeConstant xs := by
        rw [Language.first, hcomment, hconstant]
        rfl
      cases language with
      | cFamily dialect =>
        refine .of_literal [] '"' rfl hcomment (fun xs => ?_) (fun hne => absurd rfl hne) hnil h
        rw [List.nil_append, hfirst, List.length_nil, Nat.zero_add, resumeConstant_cFamily]
      | smalltalk =>
        refine .of_string [] hcomment (fun xs => ?_) h
        rw [List.nil_append, hfirst, List.length_nil, Nat.zero_add]
        rfl
    | false =>
      have hs : s.isOpen = false := by rw [LexState.isOpen, hcomment, hconstant]; rfl
      obtain ⟨c, line, rfl⟩ := List.exists_cons_of_ne_nil (hclosed hs)
      cases language with
      | cFamily dialect => exact dialect.tokenAcross hs h
      | smalltalk => exact Smalltalk.tokenAcross hs h

end

end Markup.Lexis
