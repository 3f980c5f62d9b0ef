import Markup.Proofs.Lexis.Lookahead
import Markup.Proofs.Lexis.Ranges

/-!
# Keywords are words

A keyword of the C family is a reserved word, and the character after it does not go on with it. The
character before it is not part of a longer word either, since every kind of token but one goes on
over small letters or ends with a character of no word (`Run.wordBoundary`). The exception is a
numeral that is neither a letter nor a decimal digit of ASCII: it may stand inside an identifier,
but elsewhere it is a token of its own. After such a numeral, and only there, a keyword may begin
within a word (`keyword_is_word`, `keyword_after_numeral`).
-/

namespace Markup.Lexis

open Markup.Text

variable {dialect : CDialect} {s s' : LexState} {cs us rest : List Char}
  {earlier later : List Piece} {n : Nat}

/-! ## Characters -/

/-- The small letters of ASCII are letters. -/
theorem isLetter_of_isLower {c : Char} (h : c.isLower = true) : isLetter c = true := by
  have hletters : ∀ n ∈ List.range' 97 26, covers letterRanges n = true := by decide
  obtain ⟨hle, hge⟩ := Bool.and_eq_true_iff.1 h
  have hle' : 97 ≤ c.toNat := UInt32.le_iff_toNat_le.1 (of_decide_eq_true hle)
  have hge' : c.toNat ≤ 122 := UInt32.le_iff_toNat_le.1 (of_decide_eq_true hge)
  exact hletters c.toNat (List.mem_range'_1.2 (by omega))

/-- No blank is a letter or a numeral. -/
theorem isLetterOrNumeral_of_isBlank {c : Char} (h : isBlank c = true) :
    isLetterOrNumeral c = false := by
  have hblanks : ∀ r ∈ blankRanges, ∀ n ∈ List.range' r.1 (r.2 + 1 - r.1),
      (covers letterRanges n || covers numeralRanges n) = false := by
    decide +kernel
  obtain ⟨r, hr, hle, hge⟩ := exists_mem_of_covers h
  exact hblanks r hr c.toNat (List.mem_range'_1.2 (by omega))

namespace CDialect

/-- Whether a character goes on with an identifier, but begins neither an identifier nor a number:
a numeral that is neither a letter nor a digit of ASCII. -/
def isLoneNumeral (c : Char) : Bool :=
  isNumeral c && !isLetter c && !c.isDigit

/-- What goes on with an identifier and begins neither an identifier nor a number is a lone numeral.
-/
theorem isLoneNumeral_of_isIdentifierChar {c : Char} (hstart : ¬isIdentifierStart c = true)
    (hdigit : ¬c.isDigit = true) (h : isIdentifierChar c = true) : isLoneNumeral c = true := by
  simp only [isIdentifierStart, Bool.or_eq_true, not_or, Bool.not_eq_true] at hstart hdigit
  obtain ⟨⟨hletter, hunderscore⟩, hdollar⟩ := hstart
  rw [isIdentifierChar, isLetterOrNumeral, hletter, hunderscore, hdollar, Bool.or_false,
    Bool.or_false, Bool.false_or] at h
  rw [isLoneNumeral, h, hletter, hdigit]
  rfl

/-- Small letters go on with an identifier. -/
theorem isIdentifierChar_of_isLower {c : Char} (h : c.isLower = true) :
    isIdentifierChar c = true := by
  simp [isIdentifierChar, isLetterOrNumeral, isLetter_of_isLower h]

/-- Small letters go on with a number. -/
theorem isNumberChar_of_isLower {c : Char} (h : c.isLower = true) : isNumberChar c = true := by
  have hletter : c.isAlphanum = true := by
    show (c.isUpper || c.isLower || c.isDigit) = true
    rw [h, Bool.or_true, Bool.true_or]
  rw [isNumberChar, hletter]
  rfl

/-- Small letters end no line. -/
theorem isLineEnd_of_isLower {c : Char} (h : c.isLower = true) : isLineEnd c = false := by
  rw [isLineEnd, Bool.or_eq_false_iff, beq_eq_false_iff_ne, beq_eq_false_iff_ne]
  constructor
  · rintro rfl
    cases h
  · rintro rfl
    cases h

/-- No blank goes on with an identifier. -/
theorem isIdentifierChar_of_isBlank {c : Char} (h : isBlank c = true) :
    isIdentifierChar c = false := by
  rw [isIdentifierChar, isLetterOrNumeral_of_isBlank h, Bool.false_or, Bool.or_eq_false_iff,
    beq_eq_false_iff_ne, beq_eq_false_iff_ne]
  constructor
  · rintro rfl
    exact absurd h (by decide)
  · rintro rfl
    exact absurd h (by decide)

/-! ## Where a token stops -/

/-- No word goes on from characters to the rest with a small letter, unless the last of them is a
lone numeral. -/
def WordBoundary (us rest : List Char) : Prop :=
  ∀ c x, us.getLast? = some c → rest.head? = some x → x.isLower = true →
    isIdentifierChar c = true → isLoneNumeral c = true

theorem wordBoundary_nil_left (rest : List Char) : WordBoundary [] rest :=
  fun _ _ hc => nomatch hc

/-- No word goes on with anything but a small letter. -/
theorem wordBoundary_of_head (us : List Char)
    (h : ∀ x, rest.head? = some x → ¬x.isLower = true) : WordBoundary us rest :=
  fun _ x _ hx hlower => absurd hlower (h x hx)

/-- It is enough to know the last character. -/
theorem wordBoundary_of_suffix {c : Char} (h : isIdentifierChar c = true → isLoneNumeral c = true)
    (hus : [c] <:+ us) (rest : List Char) : WordBoundary us rest := by
  obtain ⟨more, rfl⟩ := hus
  intro x _ hx _ _
  rw [List.getLast?_concat] at hx
  cases hx
  exact h

/-- No small letter comes after characters among which small letters belong. -/
theorem wordBoundary_takeWhile {p : Char → Bool} (hp : ∀ c, c.isLower = true → p c = true)
    (cs : List Char) :
    WordBoundary (cs.take (cs.takeWhile p).length) (cs.drop (cs.takeWhile p).length) := by
  rw [take_length_takeWhile, drop_length_takeWhile]
  refine wordBoundary_of_head _ fun x hx hlower => ?_
  have hstop := eq_false_of_head?_dropWhile hx
  rw [hp x hlower] at hstop
  cases hstop

/-- Of two parts the second decides, or the first if the second is empty. -/
theorem wordBoundary_append {more : List Char} (h : WordBoundary us (more ++ rest))
    (hmore : WordBoundary more rest) : WordBoundary (us ++ more) rest := by
  cases more with
  | nil => rwa [List.append_nil]
  | cons c more =>
    intro x y hx
    rw [List.getLast?_append, List.getLast?_cons, Option.some_or, ← List.getLast?_cons] at hx
    exact hmore x y hx

/-- A comment that has an end ends with a slash. -/
theorem suffix_commentBody (h : (commentBody cs).2 = true) :
    ['/'] <:+ cs.take (commentBody cs).1 := by
  fun_induction commentBody cs with
  | case1 => cases h
  | case2 rest => exact List.suffix_append ['*'] ['/']
  | case3 c rest _ n closed hbody ih =>
    rw [hbody] at ih
    exact (ih h).trans (List.suffix_append [c] _)

/-- A comment ends with a slash or with the range. -/
theorem wordBoundary_comment (opening cs : List Char) :
    WordBoundary (opening ++ cs.take (commentBody cs).1) (cs.drop (commentBody cs).1) := by
  by_cases hclosed : (commentBody cs).2 = true
  · have hend := (suffix_commentBody hclosed).trans (List.suffix_append opening _)
    exact wordBoundary_of_suffix (fun h => absurd h (by decide)) hend _
  · have hwhole := (commentBody_fits cs).whole (Bool.not_eq_true _ ▸ hclosed)
    rw [hwhole, List.drop_length]
    exact wordBoundary_of_head _ nofun

/-- A literal that has an end ends with its mark or before a line end. -/
theorem suffix_literalBody {mark : Char} (h : (literalBody mark cs).2 = true) :
    [mark] <:+ cs.take (literalBody mark cs).1 ∨
      ∃ x, (cs.drop (literalBody mark cs).1).head? = some x ∧ isLineEnd x = true := by
  fun_induction literalBody mark cs with
  | case1 => cases h
  | case2 rest n closed hbody ih =>
    rw [hbody] at ih
    exact (ih h).imp_left fun hmark => hmark.trans (List.suffix_append ['\\', '\r', '\n'] _)
  | case3 c rest _ n closed hbody ih =>
    rw [hbody] at ih
    exact (ih h).imp_left fun hmark => hmark.trans (List.suffix_append ['\\', c] _)
  | case4 => cases h
  | case5 rest => exact .inl List.suffix_rfl
  | case6 c rest _ _ _ _ hline => exact .inr ⟨c, rfl, hline⟩
  | case7 c rest _ _ _ _ _ n closed hbody ih =>
    rw [hbody] at ih
    exact (ih h).imp_left fun hmark => hmark.trans (List.suffix_append [c] _)

/-- A literal ends with its mark, before a line end or with the range. -/
theorem wordBoundary_literal (mark : Char) (hmark : isIdentifierChar mark = false)
    (opening cs : List Char) :
    WordBoundary (opening ++ cs.take (literalBody mark cs).1)
      (cs.drop (literalBody mark cs).1) := by
  by_cases hclosed : (literalBody mark cs).2 = true
  · rcases suffix_literalBody hclosed with hend | ⟨x, hx, hline⟩
    · refine wordBoundary_of_suffix (fun h => ?_) (hend.trans (List.suffix_append opening _)) _
      rw [hmark] at h
      cases h
    · refine wordBoundary_of_head _ fun y hy hlower => ?_
      obtain rfl := Option.some.inj (hx.symm.trans hy)
      rw [isLineEnd_of_isLower hlower] at hline
      cases hline
  · have hwhole := (literalBody_fits mark cs).whole (Bool.not_eq_true _ ▸ hclosed)
    rw [hwhole, List.drop_length]
    exact wordBoundary_of_head _ nofun

/-- Where nothing is open, no word goes on after a token. -/
theorem wordBoundary_scan (dialect : CDialect) (cs : List Char) :
    WordBoundary (cs.take (dialect.scan cs).1) (cs.drop (dialect.scan cs).1) := by
  cases cs with
  | nil => exact wordBoundary_nil_left _
  | cons c rest =>
    simp only [scan]
    split
    · exact wordBoundary_takeWhile (fun x hx => by rw [isLineEnd_of_isLower hx]; rfl) _
    · split
      · rename_i hstar
        obtain ⟨more, rfl⟩ := List.head?_eq_some_iff.1 hstar.2
        exact wordBoundary_comment [c, '*'] more
      · split
        · rename_i hmark
          refine wordBoundary_literal c ?_ [c] rest
          rcases hmark with rfl | rfl <;> decide
        · split
          · exact wordBoundary_takeWhile (fun _ => isIdentifierChar_of_isLower) _
          · rename_i hstart
            split
            · exact wordBoundary_takeWhile (fun _ => isNumberChar_of_isLower) _
            · -- a character by itself
              rename_i hdigit
              exact wordBoundary_of_suffix (isLoneNumeral_of_isIdentifierChar hstart hdigit)
                List.suffix_rfl rest

end CDialect

open CDialect

/-- Whatever is open, no word goes on after a token. -/
theorem wordBoundary_first (dialect : CDialect) (s : LexState) (cs : List Char) :
    WordBoundary (cs.take ((Language.cFamily dialect).first s cs).1)
      (cs.drop ((Language.cFamily dialect).first s cs).1) := by
  unfold Language.first
  split
  · exact wordBoundary_comment [] cs
  · split
    · exact wordBoundary_literal '"' (by decide) [] cs
    · exact dialect.wordBoundary_scan cs

/-- Between two pieces of a run no word goes on with a small letter. -/
theorem Run.wordBoundary (h : Run (.cFamily dialect) s cs (earlier ++ later) s') :
    WordBoundary (Markup.Lexis.charactersOf earlier) (Markup.Lexis.charactersOf later) := by
  generalize hpieces : earlier ++ later = pieces at h
  induction h generalizing earlier with
  | nil =>
    rw [(List.append_eq_nil_iff.1 hpieces).1]
    exact wordBoundary_nil_left _
  | @blank s s' c cs pieces _ hblank hrest ih =>
    cases earlier with
    | nil => exact wordBoundary_nil_left _
    | cons piece earlier =>
      obtain ⟨rfl, hlater⟩ := List.cons.inj hpieces
      have hc (h : isIdentifierChar c = true) : isLoneNumeral c = true := by
        rw [isIdentifierChar_of_isBlank hblank] at h
        cases h
      exact wordBoundary_append (wordBoundary_of_suffix hc List.suffix_rfl _) (ih hlater)
  | @token s s' cs n kind pieces _ _ hfirst hrest ih =>
    cases earlier with
    | nil => exact wordBoundary_nil_left _
    | cons piece earlier =>
      obtain ⟨rfl, hlater⟩ := List.cons.inj hpieces
      refine wordBoundary_append ?_ (ih hlater)
      have hboundary := wordBoundary_first dialect s cs
      rw [hfirst, ← hrest.charactersOf, ← hlater] at hboundary
      exact charactersOf_append earlier later ▸ hboundary

/-! ## Keywords -/

/-- A word that is a keyword has small letters only and is reserved. -/
theorem wordKind_eq_keyword {word : List Char} (h : dialect.wordKind word = .keyword) :
    (∀ c ∈ word, c.isLower = true) ∧ dialect.isKeyword (String.ofList word) = true := by
  unfold wordKind at h
  split at h
  · rename_i hword
    rwa [Bool.and_eq_true, List.all_eq_true] at hword
  · cases h

/-- A keyword is all of a word. -/
theorem scan_eq_keyword (h : dialect.scan cs = (n, .keyword)) :
    n = (cs.takeWhile isIdentifierChar).length ∧
      dialect.wordKind (cs.takeWhile isIdentifierChar) = .keyword := by
  cases cs with
  | nil => cases h
  | cons c rest =>
    simp only [scan] at h
    split at h
    · cases h
    · split at h
      · exact absurd (Prod.mk.inj h).2 (commentKind_ne (by decide) _)
      · split at h
        · exact absurd (Prod.mk.inj h).2 (constantKind_ne (by decide) _)
        · split at h
          · obtain ⟨hlength, hkind⟩ := Prod.mk.inj h
            exact ⟨hlength.symm, hkind⟩
          · split at h <;> cases h

/-- The rest of what was open is no keyword. -/
theorem first_eq_keyword (h : (Language.cFamily dialect).first s cs = (n, .keyword)) :
    dialect.scan cs = (n, .keyword) := by
  unfold Language.first at h
  split at h
  · exact absurd (Prod.mk.inj h).2 (commentKind_ne (by decide) _)
  · split at h
    · exact absurd (Prod.mk.inj h).2 (constantKind_ne (by decide) _)
    · exact h

/-- The empty word is no keyword. -/
theorem isKeyword_nil (dialect : CDialect) : dialect.isKeyword (String.ofList []) = false := by
  cases dialect <;> decide

/-- A keyword spells a reserved word. The character after it goes on with no identifier; if the one
before it does, that is a numeral which begins neither an identifier nor a number. Only characters
of the range count, from wherever the tokenizer stands. -/
theorem keyword_is_word {t : Tokenizer} {dialect : CDialect} (ht : t.language = .cFamily dialect)
    {token : Token} (htoken : token ∈ t.all.1) (hkind : token.kind = .keyword) :
    ∃ before word after, t.rest = before ++ (word ++ after) ∧
      token.start = t.position + byteLength before ∧
      token.stop = token.start + byteLength word ∧
      dialect.isKeyword (String.ofList word) = true ∧
      (∀ c, after.head? = some c → isIdentifierChar c = false) ∧
      ∀ c, before.getLast? = some c → isIdentifierChar c = true → isLoneNumeral c = true := by
  obtain ⟨pieces, s', hrun⟩ := exists_run (.cFamily dialect) t.state t.rest
  have hscanner : t.scanner = ⟨.cFamily dialect, t.position, t.rest, t.state⟩ := by
    rw [← ht]
    rfl
  rw [(Tokenizer.all_of_run hscanner hrun).1] at htoken
  obtain ⟨earlier, word, later, rfl, hstart, hstop⟩ := exists_piece_of_mem_tokensAt htoken
  rw [hkind] at hrun
  obtain ⟨s₁, hfirst⟩ := hrun.exists_first
  obtain ⟨hlength, hword⟩ := scan_eq_keyword (first_eq_keyword hfirst)
  have hsplit : (word ++ charactersOf later).takeWhile isIdentifierChar = word := by
    rw [← take_length_takeWhile, ← hlength, List.take_left]
  rw [hsplit] at hword
  obtain ⟨hlower, hreserved⟩ := wordKind_eq_keyword hword
  refine ⟨charactersOf earlier, word, charactersOf later, ?_, hstart, hstop, hreserved, ?_, ?_⟩
  · exact hrun.charactersOf.symm.trans (charactersOf_append _ _)
  · intro c hc
    have hnext : ((word ++ charactersOf later).dropWhile isIdentifierChar).head? = some c := by
      rwa [← drop_length_takeWhile, ← hlength, List.drop_left]
    exact eq_false_of_head?_dropWhile hnext
  · intro c hc
    cases word with
    | nil =>
      rw [isKeyword_nil] at hreserved
      cases hreserved
    | cons x word => exact hrun.wordBoundary c x hc rfl (hlower x (List.mem_cons_self ..))

/-- A superscript before a keyword. -/
theorem keyword_is_word_superscript :
    ((Tokenizer.ofText (.cFamily .java) "²int").language = .cFamily .java ∧
        ⟨.keyword, 2, 5⟩ ∈ (Tokenizer.ofText (.cFamily .java) "²int").all.1 ∧
        TokenKind.keyword = .keyword) ∧
      ∃ before word after,
        (Tokenizer.ofText (.cFamily .java) "²int").rest = before ++ (word ++ after) ∧
        2 = 0 + byteLength before ∧ 5 = 2 + byteLength word ∧
        CDialect.java.isKeyword (String.ofList word) = true ∧
        (∀ c, after.head? = some c → isIdentifierChar c = false) ∧
        ∀ c, before.getLast? = some c → isIdentifierChar c = true → isLoneNumeral c = true := by
  have hall := Tokenizer.all_of_allWithin 3 (.ofText (.cFamily .java) "²int")
    [⟨.token, 0, 2⟩, ⟨.keyword, 2, 5⟩] ⟨.cFamily .java, 5, [], .initial⟩ (by decide +kernel)
  have htoken : (⟨.keyword, 2, 5⟩ : Token) ∈ (Tokenizer.ofText (.cFamily .java) "²int").all.1 := by
    rw [hall.1]
    exact .tail _ (.head _)
  exact ⟨⟨rfl, htoken, rfl⟩, keyword_is_word rfl htoken rfl⟩

/-- In Java a keyword begins right after a numeral that goes on with an identifier. -/
theorem keyword_after_numeral :
    tokenize (.cFamily .java) "²int" = [⟨.token, 0, 2⟩, ⟨.keyword, 2, 5⟩] ∧
      isIdentifierChar '²' = true := by
  have hall := Tokenizer.all_of_allWithin 3 (.ofText (.cFamily .java) "²int")
    [⟨.token, 0, 2⟩, ⟨.keyword, 2, 5⟩] ⟨.cFamily .java, 5, [], .initial⟩ (by decide +kernel)
  exact ⟨hall.1, by decide +kernel⟩

end Markup.Lexis
