import Markup.Proofs.Lexis.Ranges

/-!
# What tokens cover

The tokens of a range have their ends at boundaries of the text and come one after the other, and
between them there are only blanks (`Scanned`, `scanned_ofRange`). There is at most one more token
than there are characters, because only the rest of a literal may be empty. All positions that the
cursor of a tokenizer comes to are boundaries of the text as well, and what it cuts out of the text
between two of them are the characters that it has moved over.
-/

namespace Markup.Lexis

open Markup.Text

variable {language : Language} {s s' : LexState} {cs : List Char} {pieces : List Piece}
  {position : Nat} {t : Token}

/-! ## Tokens of pieces -/

/-- A token has the characters of a piece. -/
theorem exists_of_mem_tokensAt (h : t ∈ tokensAt position pieces) :
    ∃ before mid after, charactersOf pieces = before ++ (mid ++ after) ∧
      t.start = position + byteLength before ∧ t.stop = t.start + byteLength mid := by
  obtain ⟨earlier, us, later, rfl, hstart, hstop⟩ := exists_piece_of_mem_tokensAt h
  refine ⟨charactersOf earlier, us, charactersOf later, ?_, hstart, hstop⟩
  rw [charactersOf_append, charactersOf_cons]

/-- The tokens of pieces come one after the other. -/
theorem pairwise_tokensAt (position : Nat) (pieces : List Piece) :
    (tokensAt position pieces).Pairwise fun t u => t.stop ≤ u.start := by
  induction pieces generalizing position with
  | nil => exact .nil
  | cons piece pieces ih =>
    obtain ⟨us, kind?⟩ := piece
    cases kind? with
    | none => exact ih _
    | some kind =>
      rw [tokensAt_some]
      refine List.Pairwise.cons (fun u hu => ?_) (ih _)
      obtain ⟨before, -, -, -, hstart, -⟩ := exists_of_mem_tokensAt hu
      rw [hstart]
      exact Nat.le_add_right _ _

/-! ## Tokens of a run -/

/-- A token takes a character, or it is the rest of a literal. -/
theorem Language.first_pos (language : Language) (s : LexState) (h : cs ≠ []) :
    0 < (language.first s cs).1 ∨
      (s.inConstant = true ∧ (language.first s cs).2 = .constant) := by
  unfold first
  split
  · exact .inl (Scanner.resumeComment_pos language h)
  · split
    · rename_i hconstant
      exact (Scanner.resumeConstant_cases language h).imp_right fun hkind => ⟨hconstant, hkind⟩
    · exact .inl (Scanner.scan_pos language h)

/-- Only literals say whether a literal is open. -/
theorem LexState.after_inConstant {kind : TokenKind} (hopen : kind ≠ .openConstant)
    (hclosed : kind ≠ .constant) : (s.after kind).inConstant = s.inConstant := by
  cases kind <;> first | rfl | contradiction

namespace Run

/-- There are no more tokens than characters, but one more where a literal is open. -/
theorem length_tokensAt_le (h : Run language s cs pieces s') (position : Nat) :
    (tokensAt position pieces).length ≤ cs.length + s.inConstant.toNat := by
  induction h generalizing position with
  | nil => exact Nat.zero_le _
  | @blank s s' c cs pieces _ _ _ ih =>
    have hrest := ih (position + byteLength [c])
    rw [tokensAt_none, List.length_cons]
    omega
  | @token s s' cs n kind pieces hcs _ hfirst hrest ih =>
    have hcount := ih (position + byteLength (cs.take n))
    have hlength := List.length_pos_iff.2 hcs
    have hfits := language.first_fits s cs
    have hpos := language.first_pos s hcs
    rw [hfirst] at hfits hpos
    have hle : n ≤ cs.length := hfits.le
    rw [tokensAt_some, List.length_cons]
    rw [List.length_drop] at hcount
    by_cases hopen : kind = .openConstant
    · -- nothing comes after a literal without an end
      subst hopen
      have hn : n = cs.length := hfits.whole rfl
      rw [hn, List.drop_length] at hrest
      rw [hrest.eq_nil.1]
      exact Nat.le_trans hlength (Nat.le_add_right _ _)
    by_cases hclosed : kind = .constant
    · subst hclosed
      rcases hpos with hpos | ⟨hconstant, -⟩
      · simp only [LexState.after, Bool.toNat_false] at hcount
        simp only at hpos
        omega
      · simp only [LexState.after, Bool.toNat_false] at hcount
        rw [hconstant, Bool.toNat_true]
        omega
    · rw [LexState.after_inConstant hopen hclosed] at hcount
      have hn : 0 < n := hpos.resolve_right fun h => hclosed h.2
      omega

/-- A character that no token covers is blank. -/
theorem exists_covering (h : Run language s cs pieces s') (position : Nat)
    {before after : List Char} {c : Char} (hcs : cs = before ++ c :: after)
    (hc : isBlank c = false) :
    ∃ t ∈ tokensAt position pieces, t.start ≤ position + byteLength before ∧
      position + byteLength before + c.utf8Size ≤ t.stop := by
  induction h generalizing position before with
  | nil => exact absurd hcs.symm (List.append_ne_nil_of_right_ne_nil _ (List.cons_ne_nil c after))
  | @blank s s' x cs pieces _ hblank _ ih =>
    cases before with
    | nil =>
      cases hcs
      rw [hblank] at hc
      cases hc
    | cons y before =>
      cases hcs
      have hrest := ih (position + byteLength [x]) rfl
      rw [byteLength_cons, byteLength_nil] at hrest
      rwa [byteLength_cons, ← Nat.add_assoc, tokensAt_none]
  | @token s s' cs n kind pieces _ _ _ _ ih =>
    rw [tokensAt_some]
    rw [← List.take_append_drop n cs] at hcs
    rcases append_cons_cases hcs with ⟨later, rfl, hlater⟩ | ⟨inside, hinside⟩
    · -- the character comes after the token
      obtain ⟨t, hmem, hstart, hstop⟩ := ih (position + byteLength (cs.take n)) hlater
      refine ⟨t, List.mem_cons_of_mem _ hmem, ?_⟩
      rw [byteLength_append, ← Nat.add_assoc]
      exact ⟨hstart, hstop⟩
    · refine ⟨_, List.mem_cons_self, Nat.le_add_right _ _, ?_⟩
      rw [hinside, byteLength_append, byteLength_cons]
      simp only
      omega

end Run

/-! ## Positions -/

/-- A character between two boundaries belongs to the slice between them. -/
theorem exists_of_isSlice {text mid before after : List Char} {c : Char} {start stop : Nat}
    (h : IsSlice text start stop mid) (htext : text = before ++ c :: after)
    (hstart : start ≤ byteLength before) (hstop : byteLength before < stop) :
    ∃ earlier later, mid = earlier ++ c :: later ∧
      byteLength before = start + byteLength earlier := by
  obtain ⟨first, last, rfl, rfl, rfl⟩ := h
  rcases append_cons_cases htext with ⟨earlier, rfl, hrest⟩ | ⟨inside, rfl⟩
  · rcases append_cons_cases hrest with ⟨more, rfl, -⟩ | ⟨later, hmid⟩
    · rw [byteLength_append, byteLength_append] at hstop
      omega
    · exact ⟨earlier, later, hmid, byteLength_append _ _⟩
  · have hpos := c.utf8Size_pos
    rw [byteLength_append, byteLength_cons] at hstart
    omega

namespace Tokenizer

variable {t u : Tokenizer} {token : Token}

/-- At the end there are no tokens. -/
theorem all_of_end (h : t.next = (token, u)) (hkind : token.kind = .endOfInput) :
    t.all = ([], u) := by
  rw [all, h]
  exact dif_pos hkind

/-- The next token comes before the others. -/
theorem all_of_next (h : t.next = (token, u)) (hkind : token.kind ≠ .endOfInput) :
    t.all = (token :: u.all.1, u.all.2) := by
  rw [all, h]
  exact dif_neg hkind

/-- The tokens up to the end of the range, if there are fewer than a number. -/
def allWithin : Nat → Tokenizer → Option (List Token × Tokenizer)
  | 0, _ => none
  | n + 1, t =>
    if t.next.1.kind = .endOfInput then some ([], t.next.2)
    else (allWithin n t.next.2).map fun r => (t.next.1 :: r.1, r.2)

/-- Tokens that are fewer than a number are found in that many steps. -/
theorem allWithin_of_length_lt {n : Nat} (h : t.all.1.length < n) : allWithin n t = some t.all := by
  induction n generalizing t with
  | zero => cases h
  | succ n ih =>
    rw [allWithin]
    by_cases hkind : t.next.1.kind = .endOfInput
    · have hall : t.all = ([], t.next.2) := all_of_end rfl hkind
      rw [if_pos hkind, hall]
    · have hall : t.all = (t.next.1 :: t.next.2.all.1, t.next.2.all.2) := all_of_next rfl hkind
      rw [hall] at h
      rw [if_neg hkind, ih (Nat.lt_of_succ_lt_succ h), hall]
      rfl

end Tokenizer

/-! ## Ranges -/

/-- What the tokens of a tokenizer cover that stands in a text before an offset. -/
structure Scanned (text : List Char) (stop : Nat) (t : Tokenizer) : Prop where
  /-- There is at most one more token than characters. -/
  length_le : t.all.1.length ≤ t.rest.length + 1
  /-- Asking for tokens comes to the end after that many. -/
  ends : Tokenizer.allWithin (t.rest.length + 2) t = some t.all
  /-- The ends of a token are boundaries. -/
  isBoundary : ∀ token ∈ t.all.1, IsBoundary text token.start ∧ IsBoundary text token.stop
  /-- Tokens lie between the position and the offset. -/
  inside : ∀ token ∈ t.all.1,
    t.position ≤ token.start ∧ token.start ≤ token.stop ∧ token.stop ≤ stop
  /-- A token begins where the token before it ends, or later. -/
  ordered : t.all.1.Pairwise fun token later => token.stop ≤ later.start
  /-- A character that no token covers is blank. -/
  covered : ∀ before c after, text = before ++ c :: after → t.position ≤ byteLength before →
    byteLength before < stop → isBlank c = false →
    ∃ token ∈ t.all.1, token.start ≤ byteLength before ∧
      byteLength before + c.utf8Size ≤ token.stop
  /-- From wherever the cursor comes to after tokens and characters, the characters up to the offset
  and those up to any later position are slices of the text, and the latter is what the cursor cuts
  out there. -/
  slices : ∀ n m k, let u := (t.afterTokens n).cursor.skip m
    IsSlice text u.position stop u.rest ∧
      IsSlice text u.position (u.skip k).position (u.rest.take k) ∧
      (u.skip k).slice u.position = String.ofList (u.rest.take k)

/-- A tokenizer covers what it has left of its range. -/
theorem Tokenizer.scanned (t : Tokenizer) : Scanned t.cursor.text.toList t.cursor.stop t := by
  obtain ⟨pieces, s', hrun⟩ := exists_run t.language t.state t.rest
  have hall : t.all.1 = tokensAt t.position pieces := (all_of_run rfl hrun).1
  have hlength : (tokensAt t.position pieces).length ≤ t.rest.length + 1 :=
    Nat.le_trans (hrun.length_tokensAt_le _) (Nat.add_le_add_left (Bool.toNat_le _) _)
  have hslice : IsSlice t.cursor.text.toList t.position t.cursor.stop t.rest :=
    t.cursor.isSlice_rest
  -- a token is a slice of the slice
  have htoken : ∀ token ∈ tokensAt t.position pieces, ∃ before middle after,
      t.rest = before ++ (middle ++ after) ∧ token.start = t.position + byteLength before ∧
        token.stop = token.start + byteLength middle := by
    intro token htoken
    have hpieces := exists_of_mem_tokensAt htoken
    rwa [hrun.charactersOf] at hpieces
  constructor
  case length_le => rwa [hall]
  case ends => exact allWithin_of_length_lt (by rw [hall]; exact Nat.lt_succ_of_le hlength)
  case isBoundary =>
    rw [hall]
    intro token hmem
    obtain ⟨before, middle, after, hrest, hstart, hstop⟩ := htoken token hmem
    rw [hrest] at hslice
    have hmiddle := hslice.right.left
    rw [← hstart, ← hstop] at hmiddle
    exact ⟨hmiddle.isBoundary_start, hmiddle.isBoundary_stop⟩
  case inside =>
    rw [hall]
    intro token hmem
    obtain ⟨before, middle, after, hrest, hstart, hstop⟩ := htoken token hmem
    obtain ⟨-, -, -, -, hend⟩ := hslice
    rw [hrest, byteLength_append, byteLength_append] at hend
    omega
  case ordered =>
    rw [hall]
    exact pairwise_tokensAt t.position pieces
  case covered =>
    rw [hall]
    intro before c after htext hstart hstop hc
    obtain ⟨earlier, later, hrest, hbefore⟩ := exists_of_isSlice hslice htext hstart hstop
    rw [hbefore]
    exact hrun.exists_covering t.position hrest hc
  case slices =>
    intro n m k
    obtain ⟨moved, hmoved⟩ := t.exists_skip_afterTokens n
    have hrest := (t.cursor.skip (moved + m)).isSlice_rest
    have htaken := (t.cursor.skip (moved + m)).isSlice_skip k
    rw [Cursor.text_skip] at htaken hrest
    rw [Cursor.stop_skip] at hrest
    rw [hmoved, Cursor.skip_skip]
    exact ⟨hrest, htaken, Cursor.slice_skip _ k⟩

/-- Whatever the offsets of a range and the state before it are: the range is clamped to boundaries
of the text, and its tokens cover all but blanks. -/
theorem scanned_ofRange (language : Language) (text : String) (start stop : Nat) (s : LexState) :
    (Tokenizer.ofRange language text start stop s).position =
        min (floorBoundary text.toList start) (floorBoundary text.toList stop) ∧
      IsSlice text.toList
        (min (floorBoundary text.toList start) (floorBoundary text.toList stop))
        (floorBoundary text.toList stop) (Tokenizer.ofRange language text start stop s).rest ∧
      Scanned text.toList (floorBoundary text.toList stop)
        (Tokenizer.ofRange language text start stop s) := by
  refine ⟨Tokenizer.position_ofRange language text start stop s,
    Tokenizer.isSlice_ofRange language text start stop s, ?_⟩
  have hscanned := (Tokenizer.ofRange language text start stop s).scanned
  rwa [Tokenizer.stop_ofRange] at hscanned

end Markup.Lexis
