import Markup.Proofs.Lexis.Runs
import Markup.Proofs.Text.Boundaries

/-!
# Tokenizers over ranges of a text

Whatever the offsets of a range are, its tokenizer begins at a boundary and has a slice of the text
before it (`isSlice_ofRange`). Between boundaries in order that is the slice between them
(`scanner_ofRange`). After any number of tokens the cursor stands further on in the same range
(`exists_skip_afterTokens`), and the tokenizer does what the scanner of the rest does
(`scanner_afterTokens`). Its tokens are those of a run over the characters that it has left
(`Tokenizer.all_of_run`).
-/

namespace Markup.Lexis

open Markup.Text

variable {language : Language} {s s' : LexState} {text : String} {mid : List Char}
  {pieces : List Piece} {start stop : Nat}

/-! ## Ranges -/

/-- An offset is moved back to the last boundary up to it. -/
theorem Cursor.floor_eq (text : String) (offset : Nat) :
    floor text offset = floorBoundary text.toList offset :=
  stepBack_min _ _

namespace Tokenizer

/-- A tokenizer of a range begins at the last boundary up to the start of the range, or at the end
of the range if that comes first. -/
theorem position_ofRange (language : Language) (text : String) (start stop : Nat) (s : LexState) :
    (ofRange language text start stop s).position =
      min (floorBoundary text.toList start) (floorBoundary text.toList stop) := by
  rw [← Cursor.floor_eq, ← Cursor.floor_eq]
  rfl

/-- A tokenizer of a range ends at the last boundary up to the end of the range. -/
theorem stop_ofRange (language : Language) (text : String) (start stop : Nat) (s : LexState) :
    (ofRange language text start stop s).cursor.stop = floorBoundary text.toList stop :=
  Cursor.floor_eq text stop

/-- A tokenizer of a range has the slice between these boundaries before it. -/
theorem isSlice_ofRange (language : Language) (text : String) (start stop : Nat) (s : LexState) :
    IsSlice text.toList
      (min (floorBoundary text.toList start) (floorBoundary text.toList stop))
      (floorBoundary text.toList stop) (ofRange language text start stop s).rest := by
  have hrest := (ofRange language text start stop s).cursor.isSlice_rest
  rw [stop_ofRange] at hrest
  rw [← position_ofRange language text start stop s]
  exact hrest

/-- What the tokenizer of a slice has before it. -/
theorem scanner_ofRange (h : IsSlice text.toList start stop mid) (language : Language)
    (s : LexState) : (ofRange language text start stop s).scanner = ⟨language, start, mid, s⟩ := by
  have hstart := floorBoundary_of_isBoundary h.isBoundary_start
  have hstop := floorBoundary_of_isBoundary h.isBoundary_stop
  have hle : start ≤ stop := by
    obtain ⟨-, -, -, -, rfl⟩ := h
    exact Nat.le_add_right _ _
  have hposition := position_ofRange language text start stop s
  have hslice := isSlice_ofRange language text start stop s
  rw [hstart, hstop, Nat.min_eq_left hle] at hposition hslice
  have hrest : (ofRange language text start stop s).rest = mid :=
    (slice_of_isSlice hslice).symm.trans (slice_of_isSlice h)
  show (⟨language, (ofRange language text start stop s).position,
    (ofRange language text start stop s).rest, s⟩ : Scanner) = _
  rw [hposition, hrest]

/-- What the tokenizer of a whole text has before it. -/
theorem scanner_ofText (language : Language) (text : String) :
    (ofText language text).scanner = ⟨language, 0, text.toList, .initial⟩ :=
  scanner_ofRange ⟨[], [], (List.append_nil _).symm, rfl, Nat.zero_add _⟩ language .initial

/-! ## Steps -/

/-- The tokenizer after a number of tokens. -/
def afterTokens (t : Tokenizer) : Nat → Tokenizer
  | 0 => t
  | n + 1 => t.next.2.afterTokens n

/-- A token moves the cursor over some characters of its range. -/
theorem exists_skip_next (t : Tokenizer) : ∃ n, t.next.2.cursor = t.cursor.skip n := by
  show ∃ n, (t.language.next t.toLexer).2.cursor = t.cursor.skip n
  rw [t.language.next_eq]
  split
  · exact ⟨_, rfl⟩
  · split
    · exact ⟨_, rfl⟩
    · split
      · exact ⟨_, rfl⟩
      · exact ⟨_, by rw [Lexer.emit, Lexer.advanceWhile, Cursor.consumeWhile_eq, Cursor.skip_skip]⟩

/-- Tokens move the cursor over some characters of its range. -/
theorem exists_skip_afterTokens (t : Tokenizer) (n : Nat) :
    ∃ m, (t.afterTokens n).cursor = t.cursor.skip m := by
  induction n generalizing t with
  | zero => exact ⟨0, rfl⟩
  | succ n ih =>
    obtain ⟨first, hfirst⟩ := t.exists_skip_next
    obtain ⟨m, hm⟩ := ih t.next.2
    rw [hfirst, Cursor.skip_skip] at hm
    exact ⟨first + m, hm⟩

/-- After tokens a tokenizer has the same before it as the scanner of what it had left. -/
theorem scanner_afterTokens (t : Tokenizer) (n : Nat) :
    (t.afterTokens n).scanner = t.scanner.afterTokens n := by
  induction n generalizing t with
  | zero => rfl
  | succ n ih => rw [afterTokens, Scanner.afterTokens, t.next_scanner, ih]

/-! ## Runs -/

/-- The tokens of a tokenizer are those that its scanner has. -/
theorem all_of_scanner {t : Tokenizer} {r : List Token × Scanner} (h : t.scanner.all = r) :
    t.all.1 = r.1 ∧ t.all.2.scanner = r.2 := by
  rw [t.all_scanner] at h
  exact ⟨congrArg Prod.fst h, congrArg Prod.snd h⟩

/-- The tokens of a tokenizer are those of a run over what it has left. -/
theorem all_of_run {t : Tokenizer} {position : Nat} {cs : List Char}
    (hscanner : t.scanner = ⟨language, position, cs, s⟩) (h : Run language s cs pieces s') :
    t.all.1 = tokensAt position pieces ∧
      t.all.2.scanner = ⟨language, position + byteLength cs, [], s'⟩ :=
  all_of_scanner (by rw [hscanner, Scanner.all_of_run h])

/-- The tokens of the tokenizer of a slice are those of a run over it, and the run gives the state
after them. -/
theorem all_ofRange (hslice : IsSlice text.toList start stop mid)
    (h : Run language s mid pieces s') :
    (ofRange language text start stop s).all.1 = tokensAt start pieces ∧
      (ofRange language text start stop s).all.2.state = s' := by
  obtain ⟨htokens, hlast⟩ := all_of_run (scanner_ofRange hslice language s) h
  exact ⟨htokens, congrArg Scanner.state hlast⟩

/-- The tokens of a tokenizer are those that its scanner has within a number of steps. -/
theorem all_of_allWithin (n : Nat) (t : Tokenizer) (tokens : List Token) (u : Scanner)
    (h : Scanner.allWithin n t.scanner = some (tokens, u)) :
    t.all.1 = tokens ∧ t.all.2.state = u.state := by
  obtain ⟨htokens, hlast⟩ := all_of_scanner (Scanner.all_of_allWithin h)
  exact ⟨htokens, congrArg Scanner.state hlast⟩

end Tokenizer

/-- The tokens of a whole text are those of a run over it, and the run gives the state after
them. -/
theorem tokenize_of_run (h : Run language .initial text.toList pieces s') :
    tokenize language text = tokensAt 0 pieces ∧
      (Tokenizer.ofText language text).all.2.state = s' := by
  obtain ⟨htokens, hlast⟩ := Tokenizer.all_of_run (Tokenizer.scanner_ofText language text) h
  exact ⟨htokens, congrArg Scanner.state hlast⟩

end Markup.Lexis
