import Markup.Proofs.Lexis.Lookahead
import Markup.Proofs.Lexis.Ranges

/-!
# Resuming a comment or a literal

A text may be tokenized in two ranges, of which the second resumes from the state after the first.
Where a comment or a string is open between them, nothing is lost by that: the last token of the
first range and the first token of the second are the two parts of one token of the text
(`all_of_resumed`).

In Smalltalk a state may say that both a comment and a string are open. The comment comes first. If
it has its end where the first range ends, the string begins there as a token of its own, so there
are no parts to put together (`mergeTokens_ne_all`).
-/

namespace Markup.Lexis

open Markup.Text

variable {language : Language} {s s₁ s₂ : LexState} {xs ys cs : List Char}
  {first second pieces whole : List Piece} {n : Nat} {kind opened : TokenKind}

/-! ## What a token leaves open -/

/-- After a token that has an end something is open only if the token is a comment within a
string. -/
theorem eq_of_isOpen_after (h : language.first s cs = (n, kind)) (hkind : kind.isOpen = false)
    (hopen : (s.after kind).isOpen = true) : s = ⟨true, true⟩ ∧ kind = .comment := by
  obtain ⟨inConstant, inComment⟩ := s
  cases inComment with
  | true =>
    rw [Language.first_of_inComment language rfl] at h
    obtain ⟨closed, hclosed⟩ := exists_resumeComment language cs
    rw [h] at hclosed
    subst hclosed
    cases closed with
    | true =>
      cases inConstant with
      | true => exact ⟨rfl, rfl⟩
      | false => cases hopen
    | false => cases hkind
  | false =>
    cases inConstant with
    | true =>
      rw [Language.first_of_inConstant language rfl rfl] at h
      obtain ⟨closed, hclosed⟩ := exists_resumeConstant language cs
      rw [h] at hclosed
      subst hclosed
      cases closed with
      | true => cases hopen
      | false => cases hkind
    | false =>
      have hsame : (LexState.after ⟨false, false⟩ kind).isOpen = kind.isOpen := by
        cases kind <;> rfl
      rw [hsame, hkind] at hopen
      cases hopen

/-- The rest of an open token is a token of the same kind, but may have an end. -/
theorem closed_first_after (h : language.first s cs = (n, opened)) (hopened : opened.isOpen = true)
    (ys : List Char) : (language.first (s.after opened) ys).2.closed = opened.closed := by
  cases opened with
  | openComment =>
    rw [Language.first_of_inComment language rfl]
    exact closed_commentKind _
  | openConstant =>
    have hcomment : s.inComment = false := by
      rw [← Bool.not_eq_true]
      intro hcomment
      rw [Language.first_of_inComment language hcomment] at h
      obtain ⟨closed, hclosed⟩ := exists_resumeComment language cs
      rw [h] at hclosed
      cases closed <;> cases hclosed
    rw [Language.first_of_inConstant (s := s.after .openConstant) language hcomment rfl]
    exact closed_constantKind _
  | _ => cases hopened

/-- What an open token leaves open is settled by the rest of it. -/
theorem after_after (hopened : opened.isOpen = true) (h : kind.closed = opened.closed) :
    (s.after opened).after kind = s.after kind := by
  cases opened with
  | openComment => cases kind <;> first | rfl | cases h
  | openConstant => cases kind <;> first | rfl | cases h
  | _ => cases hopened

/-! ## Runs -/

/-- A point opens nothing. -/
theorem Run.isOpen_of_point (h : Run language s ['.'] pieces s₁) (hs : s.isOpen = false) :
    s₁.isOpen = false := by
  cases h with
  | blank _ hblank => exact absurd hblank (by decide)
  | @token _ _ _ n kind pieces _ _ hfirst hrest =>
    have hscan : language.scan ['.'] = (1, .token) := by
      cases language with
      | cFamily dialect => cases dialect <;> decide +kernel
      | smalltalk => decide +kernel
    rw [Language.first_of_closed language hs, hscan] at hfirst
    cases hfirst
    obtain ⟨-, rfl⟩ := hrest.eq_nil
    exact hs

/-- How the pieces of two parts of a text make up those of the whole. -/
inductive Joined (language : Language) (s : LexState) :
    List Piece → List Piece → List Piece → Prop
  /-- The first part is empty. -/
  | nothingBefore (second : List Piece) : Joined language s [] second second
  /-- The second part is empty. -/
  | nothingAfter (first : List Piece) : Joined language s first [] first
  /-- The first part is the rest of a comment within a string. -/
  | comment (us : List Char) (second : List Piece) :
      language = .smalltalk → s = ⟨true, true⟩ →
      Joined language s [⟨us, some .comment⟩] second (⟨us, some .comment⟩ :: second)
  /-- The last token of the first part goes on in the second. -/
  | goesOn (earlier : List Piece) (us vs : List Char) (opened kind : TokenKind)
      (later : List Piece) : opened.isOpen = true →
      Joined language s (earlier ++ [⟨us, some opened⟩]) (⟨vs, some kind⟩ :: later)
        (earlier ++ ⟨us ++ vs, some kind⟩ :: later)

/-- A piece before two parts is one before the whole, if it is not all of the first part. -/
theorem Joined.cons (h : Joined language s₁ first second whole) (hfirst : first ≠ [])
    (hs : s₁ ≠ ⟨true, true⟩) (piece : Piece) :
    Joined language s (piece :: first) second (piece :: whole) := by
  cases h with
  | nothingBefore => exact absurd rfl hfirst
  | nothingAfter => exact .nothingAfter _
  | comment _ _ _ hboth => exact absurd hboth hs
  | goesOn earlier us vs opened kind later hopened =>
    exact .goesOn (piece :: earlier) us vs opened kind later hopened

/-- A run may only begin with a token where something is open. -/
theorem Run.exists_token (h : Run language s cs pieces s₁) (hcs : cs ≠ [])
    (hopen : s.isOpen = true) :
    ∃ more, pieces = ⟨cs.take (language.first s cs).1, some (language.first s cs).2⟩ :: more ∧
      Run language (s.after (language.first s cs).2) (cs.drop (language.first s cs).1) more s₁ := by
  cases h with
  | nil => exact absurd rfl hcs
  | blank hs => exact absurd hopen (by rw [hs]; decide)
  | @token _ _ _ n kind more _ _ hfirst hrest =>
    rw [hfirst]
    exact ⟨more, rfl, hrest⟩

/-- A token without an end goes on in the second part of a text. -/
theorem Run.append_of_open (hcs : cs ≠ [])
    (hblank : s.isOpen = false → ∀ c, cs.head? = some c → isBlank c = false)
    (hfirst : language.first s cs = (n, opened)) (hopened : opened.isOpen = true)
    (h : Run language (s.after opened) ys second s₂)
    (hresumes : language.Resumes (s.after opened) cs ys) :
    ∃ whole, Run language s (cs ++ ys) whole s₂ ∧
      Joined language s [⟨cs, some opened⟩] second whole := by
  obtain ⟨c, rest, rfl⟩ := List.exists_cons_of_ne_nil hcs
  have hn : n = (c :: rest).length := by
    have hwhole := (language.first_fits s (c :: rest)).whole (by rwa [hfirst])
    rwa [hfirst] at hwhole
  by_cases hys : ys = []
  · subst hys
    obtain ⟨rfl, rfl⟩ := h.eq_nil
    have hnil : (c :: rest).drop n = [] := by rw [hn, List.drop_length]
    have htoken := Run.token hcs hblank hfirst (by rw [hnil]; exact .nil _)
    rw [hn, List.take_length] at htoken
    exact ⟨_, by rwa [List.append_nil], .nothingAfter _⟩
  · obtain ⟨more, rfl, hmore⟩ := h.exists_token hys hresumes.isOpen
    have hafter := after_after (s := s) hopened (closed_first_after hfirst hopened ys)
    rw [hafter] at hmore
    have htoken := Run.token (List.cons_ne_nil c (rest ++ ys)) hblank
      (Language.first_append_of_open hfirst hopened hresumes)
      (by rwa [← List.cons_append, List.drop_length_add_append])
    rw [← List.cons_append, List.take_length_add_append] at htoken
    exact ⟨_, htoken, .goesOn [] (c :: rest) _ opened _ more hopened⟩

/-- A token that has its end where the first part of a text ends leaves something open only if it is
a comment within a string. -/
theorem Run.append_of_closed (hcs : cs ≠ [])
    (hblank : s.isOpen = false → ∀ c, cs.head? = some c → isBlank c = false)
    (hfirst : language.first s cs = (cs.length, kind)) (hkind : kind.isOpen = false)
    (h : Run language (s.after kind) ys second s₂)
    (hresumes : language.Resumes (s.after kind) cs ys) :
    ∃ whole, Run language s (cs ++ ys) whole s₂ ∧
      Joined language s [⟨cs, some kind⟩] second whole := by
  obtain ⟨c, rest, rfl⟩ := List.exists_cons_of_ne_nil hcs
  obtain ⟨rfl, rfl⟩ := eq_of_isOpen_after hfirst hkind hresumes.isOpen
  have hlanguage : language = .smalltalk := by
    cases language with
    | cFamily dialect => cases hresumes.1
    | smalltalk => rfl
  rw [Language.first_of_inComment language rfl] at hfirst
  have hwhole := language.resumeComment_append (by rw [hfirst]) ys
  rw [hfirst] at hwhole
  have htoken := Run.token (List.cons_ne_nil c (rest ++ ys)) hblank
    ((Language.first_of_inComment language rfl).trans hwhole)
    (by rwa [← List.cons_append, List.drop_left])
  rw [← List.cons_append, List.take_left] at htoken
  exact ⟨_, htoken, .comment _ second hlanguage rfl⟩

/-- A token that has its end within the first part of a text is also the first of the whole, if
something is open after the part. -/
theorem Run.first_append (h : Run language (s.after kind) (cs.drop n) first s₁)
    (hopen : s₁.isOpen = true) (hfirst : language.first s cs = (n, kind))
    (hkind : kind.isOpen = false) (hlt : n < cs.length) (ys : List Char) :
    language.first s (cs ++ ys) = (n, kind) := by
  have hpoint : s.isOpen = false → cs.drop n ≠ ['.'] := by
    intro hs hpoint
    rw [hpoint] at h
    have hafter : (s.after kind).isOpen = false := by
      rw [← Bool.not_eq_true]
      intro hafter
      obtain ⟨rfl, -⟩ := eq_of_isOpen_after hfirst hkind hafter
      cases hs
    exact absurd hopen (by rw [h.isOpen_of_point hafter]; decide)
  have hsame := language.first_append (by rw [hfirst]; exact hlt) (by rw [hfirst]; exact hpoint) ys
  rwa [hfirst] at hsame

/-- Where something is open between two parts of a text, the run of the whole is made of the runs
of the parts. -/
theorem Run.append (h : Run language s xs first s₁) (h' : Run language s₁ ys second s₂)
    (hresumes : language.Resumes s₁ xs ys) :
    ∃ whole, Run language s (xs ++ ys) whole s₂ ∧ Joined language s first second whole := by
  induction h with
  | nil s => exact ⟨second, h', .nothingBefore second⟩
  | @blank s s₁ c cs pieces hs hc hrest ih =>
    have hcs : cs ≠ [] := by
      rintro rfl
      obtain ⟨-, rfl⟩ := hrest.eq_nil
      exact absurd hresumes.isOpen (by rw [hs]; decide)
    have hboth : s ≠ ⟨true, true⟩ := by
      rintro rfl
      cases hs
    obtain ⟨whole, hwhole, hjoined⟩ := ih h' (.of_append_left [c] hresumes)
    exact ⟨_, .blank hs hc hwhole, hjoined.cons (hrest.ne_nil hcs) hboth _⟩
  | @token s s₁ cs n kind pieces hcs hblank hfirst hrest ih =>
    have hfits := language.first_fits s cs
    rw [hfirst] at hfits
    by_cases hdrop : cs.drop n = []
    · -- the token takes all of the first part
      have hn : n = cs.length := Nat.le_antisymm hfits.le (List.drop_eq_nil_iff.1 hdrop)
      rw [hdrop] at hrest
      obtain ⟨rfl, rfl⟩ := hrest.eq_nil
      rw [hn] at hfirst
      rw [hn, List.take_length]
      by_cases hkind : kind.isOpen = true
      · exact Run.append_of_open hcs hblank hfirst hkind h' hresumes
      · exact Run.append_of_closed hcs hblank hfirst (Bool.not_eq_true _ ▸ hkind) h' hresumes
    · -- the token has its end within the first part
      obtain ⟨c, rest, rfl⟩ := List.exists_cons_of_ne_nil hcs
      have hlt : n < (c :: rest).length := by
        rw [← Nat.not_le]
        exact fun hle => hdrop (List.drop_eq_nil_iff.2 hle)
      have hkind : kind.isOpen = false := by
        rw [← Bool.not_eq_true]
        exact fun hopen => Nat.ne_of_lt hlt (hfits.whole hopen)
      have hboth : s.after kind ≠ ⟨true, true⟩ := by
        intro hboth
        obtain ⟨rfl, rfl⟩ := eq_of_isOpen_after hfirst hkind (by rw [hboth]; rfl)
        cases hboth
      have hsame := hrest.first_append hresumes.isOpen hfirst hkind hlt ys
      rw [← List.take_append_drop n (c :: rest)] at hresumes
      obtain ⟨whole, hwhole, hjoined⟩ := ih h' hresumes.of_append_left
      have htoken := Run.token (List.cons_ne_nil c (rest ++ ys)) hblank hsame
        (by rwa [← List.cons_append, List.drop_append_of_le_length hfits.le])
      rw [← List.cons_append, List.take_append_of_le_length hfits.le] at htoken
      exact ⟨_, htoken, hjoined.cons (hrest.ne_nil hdrop) hboth _⟩

/-! ## Tokens -/

/-- The tokens of two parts of a text, with the last token of the first and the first token of the
second put together. -/
def mergeTokens (first second : List Token) : List Token :=
  match first.getLast?, second with
  | some last, t :: later => first.dropLast ++ ⟨t.kind, last.start, t.stop⟩ :: later
  | _, _ => first ++ second

/-- Nothing is put together with no second part. -/
theorem mergeTokens_nil (first : List Token) : mergeTokens first [] = first := by
  unfold mergeTokens
  split
  · contradiction
  · exact List.append_nil first

/-- The last token of the first part and the first of the second become one. -/
theorem mergeTokens_append_cons (earlier later : List Token) (last t : Token) :
    mergeTokens (earlier ++ [last]) (t :: later) =
      earlier ++ ⟨t.kind, last.start, t.stop⟩ :: later := by
  simp only [mergeTokens, List.getLast?_concat, List.dropLast_concat]

/-- The tokens of two parts of a text, of which the first lies between two offsets and begins in a
state: they are put together, unless the first part is the rest of a comment within a string. -/
def joinTokens (language : Language) (s : LexState) (start stop : Nat)
    (first second : List Token) : List Token :=
  if language = .smalltalk ∧ s = ⟨true, true⟩ ∧ first = [⟨.comment, start, stop⟩] then
    first ++ second
  else mergeTokens first second

/-- Nothing is joined with no second part. -/
theorem joinTokens_nil (language : Language) (s : LexState) (start stop : Nat)
    (tokens : List Token) : joinTokens language s start stop tokens [] = tokens := by
  rw [joinTokens, mergeTokens_nil, List.append_nil, ite_self]

/-- Unless the first part ends with a comment, its last token is put together with the next one. -/
theorem joinTokens_of_getLast? {start stop : Nat} {tokens more : List Token} {last : Token}
    (h : tokens.getLast? = some last) (hlast : last.kind ≠ .comment) :
    joinTokens language s start stop tokens more = mergeTokens tokens more := by
  rw [joinTokens, if_neg]
  rintro ⟨-, -, rfl⟩
  cases h
  exact hlast rfl

/-- The tokens of joined pieces are those of the parts, joined. -/
theorem tokensAt_joined (h : Joined language s first second whole) (start : Nat) :
    tokensAt start whole =
      joinTokens language s start (start + byteLength (charactersOf first)) (tokensAt start first)
        (tokensAt (start + byteLength (charactersOf first)) second) := by
  cases h with
  | nothingBefore =>
    rw [joinTokens, if_neg (fun h => List.cons_ne_nil _ _ h.2.2.symm)]
    rfl
  | nothingAfter => exact (joinTokens_nil language s _ _ _).symm
  | comment us second hlanguage hs =>
    rw [charactersOf_singleton, joinTokens, if_pos ⟨hlanguage, hs, rfl⟩]
    rfl
  | goesOn earlier us vs opened kind later hopened =>
    have hlast : opened ≠ .comment := by
      rintro rfl
      cases hopened
    have hstop : start + byteLength (charactersOf (earlier ++ [⟨us, some opened⟩])) =
        start + byteLength (charactersOf earlier) + byteLength us := by
      rw [charactersOf_append, byteLength_append, charactersOf_singleton, Nat.add_assoc]
    have hwhole : start + byteLength (charactersOf earlier) + byteLength (us ++ vs) =
        start + byteLength (charactersOf earlier) + byteLength us + byteLength vs := by
      rw [byteLength_append, Nat.add_assoc _ (byteLength us)]
    rw [hstop, tokensAt_append, tokensAt_append]
    show _ ++ ⟨kind, _, start + byteLength (charactersOf earlier) + byteLength (us ++ vs)⟩ ::
        tokensAt (start + byteLength (charactersOf earlier) + byteLength (us ++ vs)) later =
      joinTokens language s _ _ (_ ++ [⟨opened, _, _⟩]) (⟨kind, _, _⟩ :: tokensAt _ later)
    rw [joinTokens_of_getLast? List.getLast?_concat hlast, mergeTokens_append_cons, hwhole]

/-! ## Ranges -/

namespace Tokenizer

/-- A range may be tokenized in two. Where a comment or a string is open between them, the second
range resumed from the state after the first has the tokens that belong there, once the two parts
of the open token are put together, and the same state after it. -/
theorem all_of_resumed (language : Language) (text : String) (s : LexState) {a b c : Nat}
    (ha : IsBoundary text.toList a) (hb : IsBoundary text.toList b)
    (hc : IsBoundary text.toList c) (hab : a ≤ b) (hbc : b ≤ c)
    (hresumes : language.Resumes (ofRange language text a b s).all.2.state
      (splitAtByte text.toList b).1 (splitAtByte text.toList b).2) :
    (ofRange language text a c s).all.1 =
        joinTokens language s a b (ofRange language text a b s).all.1
          (ofRange language text b c (ofRange language text a b s).all.2.state).all.1 ∧
      (ofRange language text a c s).all.2.state =
        (ofRange language text b c (ofRange language text a b s).all.2.state).all.2.state := by
  obtain ⟨xs, hxs⟩ := exists_isSlice ha hb hab
  obtain ⟨ys, hys⟩ := exists_isSlice hb hc hbc
  obtain ⟨first, s₁, hfirst⟩ := exists_run language s xs
  obtain ⟨second, s₂, hsecond⟩ := exists_run language s₁ ys
  obtain ⟨before, hbefore⟩ := hxs.exists_splitAtByte_stop
  obtain ⟨after, hafter⟩ := hys.exists_splitAtByte_start
  obtain ⟨hfirstTokens, hfirstState⟩ := all_ofRange hxs hfirst
  obtain ⟨hsecondTokens, hsecondState⟩ := all_ofRange hys hsecond
  rw [hfirstState, hbefore, hafter] at hresumes
  obtain ⟨whole, hwhole, hjoined⟩ :=
    hfirst.append hsecond (hresumes.of_append_right.of_append_left)
  obtain ⟨hwholeTokens, hwholeState⟩ := all_ofRange (hxs.append hys) hwhole
  have hstop : a + byteLength (charactersOf first) = b := by
    obtain ⟨-, -, -, -, hstop⟩ := hxs
    rw [hfirst.charactersOf, hstop]
  have htokens := tokensAt_joined hjoined a
  rw [hstop] at htokens
  rw [hfirstState, hfirstTokens, hsecondTokens, hsecondState, hwholeTokens, hwholeState]
  exact ⟨htokens, rfl⟩

/-- A string that is open between two ranges. -/
theorem all_of_resumed_string :
    (IsBoundary "'ab' x".toList 0 ∧ IsBoundary "'ab' x".toList 2 ∧ IsBoundary "'ab' x".toList 6 ∧
      Language.smalltalk.Resumes (ofRange .smalltalk "'ab' x" 0 2 .initial).all.2.state
        (splitAtByte "'ab' x".toList 2).1 (splitAtByte "'ab' x".toList 2).2) ∧
      (ofRange .smalltalk "'ab' x" 0 6 .initial).all.1 =
        mergeTokens [⟨.openConstant, 0, 2⟩] [⟨.constant, 2, 4⟩, ⟨.token, 5, 6⟩] := by
  have hfirst := all_of_allWithin 2 (ofRange .smalltalk "'ab' x" 0 2 .initial)
    [⟨.openConstant, 0, 2⟩] ⟨.smalltalk, 2, [], ⟨true, false⟩⟩ (by decide +kernel)
  have hsecond := all_of_allWithin 3 (ofRange .smalltalk "'ab' x" 2 6 ⟨true, false⟩)
    [⟨.constant, 2, 4⟩, ⟨.token, 5, 6⟩] ⟨.smalltalk, 6, [], .initial⟩ (by decide +kernel)
  have ha : IsBoundary "'ab' x".toList 0 := by decide +kernel
  have hb : IsBoundary "'ab' x".toList 2 := by decide +kernel
  have hc : IsBoundary "'ab' x".toList 6 := by decide +kernel
  have hresumes : Language.smalltalk.Resumes
      (ofRange .smalltalk "'ab' x" 0 2 .initial).all.2.state
      (splitAtByte "'ab' x".toList 2).1 (splitAtByte "'ab' x".toList 2).2 := by
    rw [hfirst.2]
    rfl
  have hwhole := (all_of_resumed .smalltalk "'ab' x" .initial ha hb hc (by decide) (by decide)
    hresumes).1
  rw [hfirst.1, hfirst.2, hsecond.1] at hwhole
  exact ⟨⟨ha, hb, hc, hresumes⟩, hwhole⟩

/-- The rest of a comment within a string and the rest of the string are not parts of one token,
although the string is open between them. -/
theorem mergeTokens_ne_all :
    (IsBoundary "\"'".toList 0 ∧ IsBoundary "\"'".toList 1 ∧ IsBoundary "\"'".toList 2 ∧
      (ofRange .smalltalk "\"'" 0 1 ⟨true, true⟩).all.1 = [⟨.comment, 0, 1⟩] ∧
      (ofRange .smalltalk "\"'" 0 1 ⟨true, true⟩).all.2.state = ⟨true, false⟩ ∧
      Language.smalltalk.Resumes (ofRange .smalltalk "\"'" 0 1 ⟨true, true⟩).all.2.state
        (splitAtByte "\"'".toList 1).1 (splitAtByte "\"'".toList 1).2) ∧
      (ofRange .smalltalk "\"'" 0 2 ⟨true, true⟩).all.1 ≠
        mergeTokens (ofRange .smalltalk "\"'" 0 1 ⟨true, true⟩).all.1
          (ofRange .smalltalk "\"'" 1 2
            (ofRange .smalltalk "\"'" 0 1 ⟨true, true⟩).all.2.state).all.1 := by
  have hfirst := all_of_allWithin 2 (ofRange .smalltalk "\"'" 0 1 ⟨true, true⟩)
    [⟨.comment, 0, 1⟩] ⟨.smalltalk, 1, [], ⟨true, false⟩⟩ (by decide +kernel)
  have hsecond := all_of_allWithin 2 (ofRange .smalltalk "\"'" 1 2 ⟨true, false⟩)
    [⟨.constant, 1, 2⟩] ⟨.smalltalk, 2, [], .initial⟩ (by decide +kernel)
  have hwhole := all_of_allWithin 3 (ofRange .smalltalk "\"'" 0 2 ⟨true, true⟩)
    [⟨.comment, 0, 1⟩, ⟨.constant, 1, 2⟩] ⟨.smalltalk, 2, [], .initial⟩ (by decide +kernel)
  rw [hfirst.1, hfirst.2, hsecond.1, hwhole.1]
  exact ⟨⟨by decide +kernel, by decide +kernel, by decide +kernel, rfl, rfl, rfl⟩, by decide⟩

end Tokenizer

end Markup.Lexis
