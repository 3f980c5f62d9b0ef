import Markup.Proofs.Coverage
import Markup.Proofs.Enclosures

/-!
# Ranges as texts of their own

A tokenizer holds the whole text, but every token shape sees only the characters that are left in
the range: what it does is what the scanner of these characters does (`Tokenizer.next_scanner`). So
two tokenizers with the same characters left go on side by side, whatever texts they hold
(`Ahead.next`, `Ahead.all`): where they stand only shifts the offsets of their tokens. In particular
a range of a text is tokenized like the separate text of its characters, and what stands before and
after the range does not matter (`isolated_ofRange`).
-/

namespace Markup.Text

/-- A slice of a slice. -/
theorem IsSlice.within {cs mid inner : List Char} {start stop first last : Nat}
    (h : IsSlice cs start stop mid) (h' : IsSlice mid first last inner) :
    IsSlice cs (first + start) (last + start) inner := by
  obtain ⟨before, after, rfl, rfl, rfl⟩ := h
  obtain ⟨earlier, later, rfl, rfl, rfl⟩ := h'
  refine ⟨before ++ earlier, later ++ after, ?_, ?_, ?_⟩
  · simp only [List.append_assoc]
  · rw [byteLength_append, Nat.add_comm]
  · exact Nat.add_right_comm _ _ _

end Markup.Text

namespace Markup.Lexis

open Markup.Text

/-! ## Shifted scanners -/

namespace Scanner

/-- A scanner a number of bytes further on, with the same characters to come. -/
def shift (n : Nat) (t : Scanner) : Scanner :=
  { t with position := t.position + n }

variable (t : Scanner) (n : Nat)

@[simp] theorem language_shift : (t.shift n).language = t.language := rfl

@[simp] theorem rest_shift : (t.shift n).rest = t.rest := rfl

@[simp] theorem state_shift : (t.shift n).state = t.state := rfl

/-- Characters may be passed over before or after the shift. -/
theorem skip_shift (count : Nat) : (t.shift n).skip count = (t.skip count).shift n := by
  simp only [skip, shift, Nat.add_right_comm]

/-- A token may be taken before or after the shift. -/
theorem emit_shift (length : Nat) (kind : TokenKind) :
    (t.shift n).emit length kind =
      ((t.emit length kind).1.shift n, (t.emit length kind).2.shift n) := by
  simp only [emit, skip_shift]
  rfl

/-- Where a scanner stands shifts its next token, and does not matter otherwise. -/
theorem next_shift : (t.shift n).next = (t.next.1.shift n, t.next.2.shift n) := by
  have hblanks : (t.shift n).skip (t.shift n).blanks = (t.skip t.blanks).shift n :=
    skip_shift t n t.blanks
  unfold next
  simp only [hblanks, rest_shift, state_shift, language_shift]
  by_cases hrest : t.rest = []
  · simp only [if_pos hrest, emit_shift]
  · by_cases hcomment : t.state.inComment = true
    · simp only [if_neg hrest, if_pos hcomment, emit_shift]
    · by_cases hconstant : t.state.inConstant = true
      · simp only [if_neg hrest, if_neg hcomment, if_pos hconstant, emit_shift]
      · simp only [if_neg hrest, if_neg hcomment, if_neg hconstant, emit_shift]

/-- Where a scanner stands shifts its tokens, and does not matter otherwise. -/
theorem all_shift : (t.shift n).all = (t.all.1.map (.shift n), t.all.2.shift n) := by
  obtain ⟨language, position, cs, s⟩ := t
  obtain ⟨pieces, s', hrun⟩ := exists_run language s cs
  show (mk language (position + n) cs s).all = _
  rw [all_of_run hrun, all_of_run hrun, tokensAt_add, Nat.add_right_comm]
  rfl

end Scanner

/-! ## Tokenizers side by side -/

namespace Tokenizer

/-- Two tokenizers, perhaps of different texts, have the same characters left in their ranges and
the same open, and the first stands a number of bytes further on in its text. -/
structure Ahead (n : Nat) (t u : Tokenizer) : Prop where
  /-- Both are of one language. -/
  language : t.language = u.language
  /-- The first stands further on. -/
  position : t.position = u.position + n
  /-- The same characters are left. -/
  rest : t.rest = u.rest
  /-- The same is open. -/
  state : t.state = u.state

variable {n : Nat} {t u : Tokenizer}

/-- Only the scanners of the rests matter. -/
theorem ahead_iff : Ahead n t u ↔ t.scanner = u.scanner.shift n := by
  constructor
  · rintro ⟨hlanguage, hposition, hrest, hstate⟩
    show (⟨t.language, t.position, t.rest, t.state⟩ : Scanner) = _
    rw [hlanguage, hposition, hrest, hstate]
    rfl
  · intro h
    exact ⟨congrArg Scanner.language h, congrArg Scanner.position h, congrArg Scanner.rest h,
      congrArg Scanner.state h⟩

namespace Ahead

/-- Side by side, two tokenizers take the same token and stay side by side. -/
theorem next (h : Ahead n t u) :
    t.next.1 = u.next.1.shift n ∧ Ahead n t.next.2 u.next.2 := by
  have hnext := t.next_scanner
  rw [ahead_iff.1 h, Scanner.next_shift, u.next_scanner] at hnext
  obtain ⟨htoken, hscanner⟩ := Prod.mk.inj hnext
  exact ⟨htoken.symm, ahead_iff.2 hscanner.symm⟩

/-- They stay side by side over any number of tokens. -/
theorem afterTokens (h : Ahead n t u) (count : Nat) :
    Ahead n (t.afterTokens count) (u.afterTokens count) := by
  induction count generalizing t u with
  | zero => exact h
  | succ count ih => exact ih h.next.2

/-- Side by side, two tokenizers have the same tokens, and come to the end of their ranges side by
side. -/
theorem all (h : Ahead n t u) :
    t.all.1 = u.all.1.map (.shift n) ∧ Ahead n t.all.2 u.all.2 := by
  have hall := t.all_scanner
  rw [ahead_iff.1 h, Scanner.all_shift, u.all_scanner] at hall
  obtain ⟨htokens, hlast⟩ := Prod.mk.inj hall
  exact ⟨htokens.symm, ahead_iff.2 hlast.symm⟩

end Ahead

end Tokenizer

/-! ## Ranges -/

/-- The text between two offsets of a text. -/
def between (text : String) (start stop : Nat) : String :=
  .ofList (slice text.toList start stop)

/-- The tokenizer of all of a text from a state. -/
def wholeFrom (language : Language) (text : String) (s : LexState) : Tokenizer :=
  .ofRange language text 0 (byteLength text.toList) s

variable {language : Language} {s : LexState} {text : String} {mid : List Char} {a b : Nat}

/-- The tokenizer of a range goes side by side with that of the separate text of its characters. -/
theorem ahead_ofRange (language : Language) (s : LexState) (h : IsSlice text.toList a b mid) :
    Tokenizer.Ahead a (.ofRange language text a b s) (wholeFrom language (.ofList mid) s) := by
  have hwhole :
      IsSlice (String.ofList mid).toList 0 (byteLength (String.ofList mid).toList) mid := by
    rw [String.toList_ofList]
    exact ⟨[], [], (List.append_nil mid).symm, rfl, Nat.zero_add _⟩
  rw [Tokenizer.ahead_iff, wholeFrom, Tokenizer.scanner_ofRange h,
    Tokenizer.scanner_ofRange hwhole]
  simp only [Scanner.shift, Nat.zero_add]

/-- The separate text of a range has the tokens of a slice. -/
theorem exists_isSlice_of_mem {t : Token} (ht : t ∈ (wholeFrom language text s).all.1) :
    ∃ us, IsSlice text.toList t.start t.stop us := by
  obtain ⟨-, -, hscanned⟩ :=
    scanned_ofRange language text 0 (byteLength text.toList) s
  obtain ⟨hstart, hstop⟩ := hscanned.isBoundary t ht
  exact exists_isSlice hstart hstop (hscanned.inside t ht).2.1

/-- A token has the same characters in a text and in the separate text of a range. -/
theorem text_shift_of_mem (h : IsSlice text.toList a b mid) {t : Token}
    (ht : t ∈ (wholeFrom language (.ofList mid) s).all.1) :
    (t.shift a).text text = t.text (.ofList mid) := by
  obtain ⟨us, hus⟩ := exists_isSlice_of_mem ht
  rw [String.toList_ofList] at hus
  have htext : (t.shift a).characters text.toList = us := slice_of_isSlice (h.within hus)
  have hpart : t.characters mid = us := slice_of_isSlice hus
  rw [Token.text, Token.text, String.toList_ofList, htext, hpart]

/-- A range of a text is tokenized as if it were a text of its own. -/
structure Isolated (language : Language) (s : LexState) (text : String) (a b : Nat) : Prop where
  /-- The tokens are those of the separate text, with their offsets shifted. -/
  tokens : (Tokenizer.ofRange language text a b s).all.1 =
    (wholeFrom language (between text a b) s).all.1.map (.shift a)
  /-- The state after them is the same. -/
  state : (Tokenizer.ofRange language text a b s).all.2.state =
    (wholeFrom language (between text a b) s).all.2.state
  /-- After any number of tokens the next one is the same, also at the end of the range, and the two
  tokenizers stand side by side. -/
  steps : ∀ n,
    ((Tokenizer.ofRange language text a b s).afterTokens n).next.1 =
        ((wholeFrom language (between text a b) s).afterTokens n).next.1.shift a ∧
      Tokenizer.Ahead a ((Tokenizer.ofRange language text a b s).afterTokens n)
        ((wholeFrom language (between text a b) s).afterTokens n)
  /-- A token has the same characters in both texts. -/
  texts : ∀ t ∈ (wholeFrom language (between text a b) s).all.1,
    (t.shift a).text text = t.text (between text a b)
  /-- A text with the same characters in the range has the same tokens there, and the same state
  after them. -/
  agree : ∀ other : String, IsBoundary other.toList a → IsBoundary other.toList b →
    between other a b = between text a b →
    (Tokenizer.ofRange language other a b s).all.1 =
        (Tokenizer.ofRange language text a b s).all.1 ∧
      (Tokenizer.ofRange language other a b s).all.2.state =
        (Tokenizer.ofRange language text a b s).all.2.state

/-- A tokenizer sees only its range. -/
theorem isolated_ofRange (language : Language) (s : LexState) {text : String} {a b : Nat}
    (ha : IsBoundary text.toList a) (hb : IsBoundary text.toList b) (hab : a ≤ b) :
    Isolated language s text a b := by
  obtain ⟨mid, hmid⟩ := exists_isSlice ha hb hab
  have hbetween : between text a b = .ofList mid := by rw [between, slice_of_isSlice hmid]
  have hahead := ahead_ofRange language s hmid
  obtain ⟨htokens, hlast⟩ := hahead.all
  constructor
  case tokens => rw [hbetween, htokens]
  case state => rw [hbetween, hlast.state]
  case steps =>
    intro n
    rw [hbetween]
    exact ⟨(hahead.afterTokens n).next.1, hahead.afterTokens n⟩
  case texts =>
    rw [hbetween]
    exact fun t ht => text_shift_of_mem hmid ht
  case agree =>
    intro other ha' hb' hsame
    obtain ⟨mid', hmid'⟩ := exists_isSlice ha' hb' hab
    rw [hbetween, between, slice_of_isSlice hmid', String.ofList_inj] at hsame
    subst hsame
    obtain ⟨htokens', hlast'⟩ := (ahead_ofRange language s hmid').all
    exact ⟨htokens'.trans htokens.symm, hlast'.state.trans hlast.state.symm⟩

/-- A word that is part of a longer one, and a slash before a star that is outside the range. -/
theorem isolated_ofRange_print :
    (IsBoundary "print/*".toList 2 ∧ IsBoundary "print/*".toList 6 ∧ 2 ≤ 6) ∧
      (Tokenizer.ofRange (.cFamily .java) "print/*" 2 6 .initial).all.1 =
        [⟨.keyword, 2, 5⟩, ⟨.token, 5, 6⟩] ∧
      (Tokenizer.ofRange (.cFamily .java) "//int//" 2 6 .initial).all.1 =
        [⟨.keyword, 2, 5⟩, ⟨.token, 5, 6⟩] := by
  have ha : IsBoundary "print/*".toList 2 := by decide +kernel
  have hb : IsBoundary "print/*".toList 6 := by decide +kernel
  have hbetween : between "print/*" 2 6 = "int/" := by decide +kernel
  have hwhole := Tokenizer.all_of_allWithin 3 (wholeFrom (.cFamily .java) "int/" .initial)
    [⟨.keyword, 0, 3⟩, ⟨.token, 3, 4⟩] ⟨.cFamily .java, 4, [], .initial⟩ (by decide +kernel)
  have hisolated := isolated_ofRange (.cFamily .java) .initial ha hb (by decide)
  have htokens := hisolated.tokens
  rw [hbetween, hwhole.1] at htokens
  have hother := (hisolated.agree "//int//" (by decide +kernel) (by decide +kernel)
    (by decide +kernel)).1
  exact ⟨⟨ha, hb, by decide⟩, htokens, hother.trans htokens⟩

end Markup.Lexis
