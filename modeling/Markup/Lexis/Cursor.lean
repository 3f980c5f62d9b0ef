import Markup.Lexis.Basic
import Markup.Text.Boundary

/-!
# Cursors

A cursor moves over a range of a text. It holds the whole text, and where the range ends is a number
beside it, so it is up to each operation not to look past the end. What the operations do is told on
the characters that are left in the range (`Cursor.rest`): they see and take its first characters,
and between two positions of a cursor there is the part of it that has been taken
(`Cursor.slice_skip`).
-/

namespace Markup.Lexis

open Markup.Text

section

variable {α : Type} (p : α → Bool) (xs : List α)

/-- The characters that fulfil a condition, by their number. -/
theorem take_length_takeWhile : xs.take (xs.takeWhile p).length = xs.takeWhile p :=
  (List.prefix_iff_eq_take.1 (List.takeWhile_prefix p)).symm

/-- The characters after those that fulfil a condition, by the number of these. -/
theorem drop_length_takeWhile : xs.drop (xs.takeWhile p).length = xs.dropWhile p := by
  have hsplit := List.take_append_drop (xs.takeWhile p).length xs
  rw [take_length_takeWhile] at hsplit
  exact List.append_cancel_left (hsplit.trans List.takeWhile_append_dropWhile.symm)

end

/-- A position within a range of a text. Offsets count bytes from the start of the text. -/
structure Cursor where
  /-- The whole text, also what is outside the range. -/
  text : String
  /-- Where the cursor stands. -/
  position : Nat
  /-- Where the range ends. -/
  stop : Nat
  /-- The cursor and the end stand between characters, and the cursor not after the end. -/
  exists_isSlice : ∃ cs, IsSlice text.toList position stop cs

namespace Cursor

/-- The last boundary of a text up to an offset, which may be beyond the text. -/
def floor (text : String) (offset : Nat) : Nat :=
  stepBack text.toList (min offset (byteLength text.toList))

/-- An offset is moved back to a boundary. -/
theorem isBoundary_floor (text : String) (offset : Nat) :
    IsBoundary text.toList (floor text offset) :=
  isBoundary_stepBack _ _

/-- A cursor over a range of a text. Both ends are moved back to boundaries of the text, and the
start to the end if it is larger. -/
def ofRange (text : String) (start stop : Nat) : Cursor where
  text
  position := min (floor text start) (floor text stop)
  stop := floor text stop
  exists_isSlice := by
    refine Text.exists_isSlice ?_ (isBoundary_floor text stop) (Nat.min_le_right _ _)
    rcases Nat.le_total (floor text start) (floor text stop) with hle | hle
    · rw [Nat.min_eq_left hle]
      exact isBoundary_floor text start
    · rw [Nat.min_eq_right hle]
      exact isBoundary_floor text stop

/-- Whether the range is used up. -/
def atEnd (c : Cursor) : Bool :=
  c.stop ≤ c.position

/-- The characters from the cursor to the end of the range. -/
def rest (c : Cursor) : List Char :=
  Text.slice c.text.toList c.position c.stop

/-- The next character. -/
def peek (c : Cursor) : Option Char :=
  c.rest.head?

/-- The character a number of characters ahead. -/
def peekAt (c : Cursor) (offset : Nat) : Option Char :=
  c.rest[offset]?

/-- Whether what is left begins with some characters. -/
def startsWith (c : Cursor) (start : String) : Bool :=
  start.toList.isPrefixOf c.rest

/-- What is left is a slice of the text. -/
theorem isSlice_rest (c : Cursor) : IsSlice c.text.toList c.position c.stop c.rest := by
  obtain ⟨cs, hcs⟩ := c.exists_isSlice
  rw [rest, slice_of_isSlice hcs]
  exact hcs

/-- After the next character there is a slice again. -/
theorem exists_isSlice_of_peek {c : Cursor} {x : Char} (h : c.peek = some x) :
    ∃ cs, IsSlice c.text.toList (c.position + x.utf8Size) c.stop cs := by
  obtain ⟨cs, hcs⟩ := List.head?_eq_some_iff.1 h
  have hslice := c.isSlice_rest
  rw [hcs, ← List.singleton_append] at hslice
  exact ⟨cs, hslice.right⟩

/-- Takes the next character. -/
def consume (c : Cursor) : Option Char × Cursor :=
  match h : c.peek with
  | none => (none, c)
  | some x =>
    (some x,
      { c with
        position := c.position + x.utf8Size
        exists_isSlice := exists_isSlice_of_peek h })

/-! ## What is left -/

variable (c : Cursor)

/-- A range is used up if there are no characters left. -/
theorem atEnd_iff : c.atEnd = true ↔ c.rest = [] := by
  obtain ⟨-, -, -, -, hstop⟩ := c.isSlice_rest
  rw [atEnd, decide_eq_true_iff, ← hstop]
  constructor
  · intro hle
    exact byteLength_eq_zero (by omega)
  · intro hnil
    exact Nat.le_of_eq (by rw [hnil, byteLength_nil, Nat.add_zero])

/-- Where there is a next character, characters are left. -/
theorem rest_ne_nil_of_peek {c : Cursor} {x : Char} (h : c.peek = some x) : c.rest ≠ [] := by
  intro hnil
  rw [peek, hnil] at h
  cases h

/-- Where no characters are left the cursor stands at the end. -/
theorem position_of_rest_nil {c : Cursor} (h : c.rest = []) : c.position = c.stop := by
  obtain ⟨-, -, -, -, hstop⟩ := c.isSlice_rest
  rw [← hstop, h, byteLength_nil, Nat.add_zero]

/-- The character after the next one. -/
theorem peekAt_one {c : Cursor} {x : Char} {cs : List Char} (h : c.rest = x :: cs) :
    c.peekAt 1 = cs.head? := by
  rw [peekAt, h, List.getElem?_cons_succ, List.head?_eq_getElem?]

/-- Another cursor with a slice of the same text has that slice left. -/
theorem rest_of_isSlice {c : Cursor} {cs : List Char}
    (h : IsSlice c.text.toList c.position c.stop cs) : c.rest = cs :=
  slice_of_isSlice h

/-- At the end of the range nothing is taken. -/
theorem consume_of_rest_nil {c : Cursor} (h : c.rest = []) : c.consume = (none, c) := by
  unfold consume
  split
  · rfl
  · rename_i x hpeek
    rw [peek, h] at hpeek
    cases hpeek

/-- The character that is taken is the first that is left. -/
@[simp] theorem fst_consume : c.consume.1 = c.rest.head? := by
  unfold consume
  split
  · rename_i h
    exact h.symm
  · rename_i x h
    exact h.symm

@[simp] theorem text_consume : c.consume.2.text = c.text := by
  unfold consume
  split <;> rfl

@[simp] theorem stop_consume : c.consume.2.stop = c.stop := by
  unfold consume
  split <;> rfl

/-- The cursor moves over the character that it takes. -/
theorem position_consume : c.consume.2.position = c.position + byteLength (c.rest.take 1) := by
  unfold consume
  split
  · rename_i h
    rw [List.head?_eq_none_iff.1 h]
    rfl
  · rename_i x h
    obtain ⟨cs, hcs⟩ := List.head?_eq_some_iff.1 h
    rw [hcs]
    rfl

/-- The first character is no longer left. -/
@[simp] theorem rest_consume : c.consume.2.rest = c.rest.tail := by
  have hslice := c.isSlice_rest
  rw [← List.take_append_drop 1 c.rest] at hslice
  refine rest_of_isSlice ?_
  rw [text_consume, stop_consume, position_consume, ← List.drop_one]
  exact hslice.right

/-! ## Moving on -/

/-- The cursor after some characters. -/
def skip (c : Cursor) : Nat → Cursor
  | 0 => c
  | n + 1 => c.consume.2.skip n

@[simp] theorem skip_zero : c.skip 0 = c := rfl

/-- The first character is skipped first. -/
theorem skip_succ (n : Nat) : c.skip (n + 1) = c.consume.2.skip n := rfl

/-- Characters may be skipped in two parts. -/
theorem skip_skip (m n : Nat) : (c.skip m).skip n = c.skip (m + n) := by
  induction m generalizing c with
  | zero => rw [Nat.zero_add, skip_zero]
  | succ m ih => rw [Nat.add_right_comm, skip_succ, skip_succ, ih]

@[simp] theorem text_skip (n : Nat) : (c.skip n).text = c.text := by
  induction n generalizing c with
  | zero => rfl
  | succ n ih => rw [skip_succ, ih, text_consume]

@[simp] theorem stop_skip (n : Nat) : (c.skip n).stop = c.stop := by
  induction n generalizing c with
  | zero => rfl
  | succ n ih => rw [skip_succ, ih, stop_consume]

/-- The characters that are skipped are no longer left. -/
@[simp] theorem rest_skip (n : Nat) : (c.skip n).rest = c.rest.drop n := by
  induction n generalizing c with
  | zero => rfl
  | succ n ih => rw [skip_succ, ih, rest_consume, List.drop_tail]

/-- The cursor moves over the characters that it skips. -/
theorem position_skip (n : Nat) :
    (c.skip n).position = c.position + byteLength (c.rest.take n) := by
  induction n generalizing c with
  | zero => rfl
  | succ n ih =>
    rw [skip_succ, ih, position_consume, rest_consume, Nat.add_assoc, ← byteLength_append]
    cases hrest : c.rest with
    | nil => rw [List.tail_nil, List.take_nil, List.take_nil, List.take_nil, List.append_nil]
    | cons x cs => rfl

/-- Takes characters while they fulfil a condition. -/
def consumeWhile (p : Char → Bool) (c : Cursor) : Cursor :=
  if c.peek.any p then c.consume.2.consumeWhile p else c
termination_by c.rest.length
decreasing_by
  rename_i h
  rw [rest_consume, List.length_tail]
  cases hrest : c.rest with
  | nil =>
    rw [peek, hrest] at h
    cases h
  | cons x cs => exact Nat.lt_succ_self _

/-- The first characters that fulfil the condition are skipped, up to the end of the range. -/
theorem consumeWhile_eq (p : Char → Bool) :
    c.consumeWhile p = c.skip (c.rest.takeWhile p).length := by
  generalize hlength : c.rest.length = length
  induction length generalizing c with
  | zero =>
    rw [consumeWhile, peek, List.length_eq_zero_iff.1 hlength]
    rfl
  | succ length ih =>
    obtain ⟨x, cs, hrest⟩ := List.exists_cons_of_length_eq_add_one hlength
    rw [consumeWhile, peek, hrest, List.head?_cons, Option.any_some]
    by_cases hx : p x = true
    · have htail : c.consume.2.rest = cs := by rw [rest_consume, hrest, List.tail_cons]
      have hcs : c.consume.2.rest.length = length := by
        rw [rest_consume, List.length_tail, hlength, Nat.add_sub_cancel]
      rw [if_pos hx, ih c.consume.2 hcs, htail, List.takeWhile_cons_of_pos hx, List.length_cons,
        skip_succ]
    · rw [if_neg hx, List.takeWhile_cons_of_neg hx]
      rfl

/-! ## Tokens -/

/-- A token from an earlier position to the cursor. -/
def tokenFrom (c : Cursor) (start : Nat) (kind : TokenKind) : Token :=
  ⟨kind, start, c.position⟩

/-- The token at the end of the range. -/
def endOfInput (c : Cursor) : Token :=
  ⟨.endOfInput, c.stop, c.stop⟩

/-- The text from an earlier position to the cursor. -/
def slice (c : Cursor) (start : Nat) : String :=
  String.ofList (Text.slice c.text.toList start c.position)

/-- The characters that are skipped are a slice of the text. -/
theorem isSlice_skip (n : Nat) :
    IsSlice c.text.toList c.position (c.skip n).position (c.rest.take n) := by
  have hslice := c.isSlice_rest
  rw [← List.take_append_drop n c.rest] at hslice
  rw [position_skip]
  exact hslice.left

/-- The text between two positions is what has been taken between them. -/
theorem slice_skip (n : Nat) : (c.skip n).slice c.position = String.ofList (c.rest.take n) := by
  rw [slice, text_skip, slice_of_isSlice (c.isSlice_skip n)]

end Cursor

end Markup.Lexis
