import Markup.Text.Boundary
import Mathlib.Data.Nat.Find

/-!
# The last boundary up to an offset

Every offset has a last boundary up to it (`floorBoundary`). That is where stepping back from the
offset ends (`stepBack_min`). At a boundary a text is split into the slices before and after it
(`IsSlice.exists_splitAtByte_start`, `IsSlice.exists_splitAtByte_stop`).
-/

namespace Markup.Text

variable {cs before mid after : List Char} {m n start stop : Nat}

/-! ## The last boundary -/

/-- The last boundary up to an offset. -/
def floorBoundary (cs : List Char) (n : Nat) : Nat :=
  Nat.findGreatest (IsBoundary cs) n

/-- Rounding goes down. -/
theorem floorBoundary_le (cs : List Char) (n : Nat) : floorBoundary cs n ≤ n :=
  Nat.findGreatest_le n

/-- Rounding finds a boundary. -/
theorem isBoundary_floorBoundary (cs : List Char) (n : Nat) :
    IsBoundary cs (floorBoundary cs n) :=
  Nat.findGreatest_spec (Nat.zero_le n) (isBoundary_zero cs)

/-- Rounding finds the last boundary. -/
theorem le_floorBoundary (h : IsBoundary cs m) (hle : m ≤ n) : m ≤ floorBoundary cs n :=
  Nat.le_findGreatest hle h

/-- The last boundary up to a boundary is that one. -/
theorem floorBoundary_of_isBoundary (h : IsBoundary cs n) : floorBoundary cs n = n :=
  Nat.le_antisymm (floorBoundary_le cs n) (le_floorBoundary h (Nat.le_refl n))

/-- Stepping back ends at the last boundary. -/
theorem stepBack_eq (cs : List Char) (n : Nat) : stepBack cs n = floorBoundary cs n := by
  induction n with
  | zero => rfl
  | succ n ih => rw [stepBack, floorBoundary, Nat.findGreatest, ← floorBoundary, ih]

/-- Nothing is lost by stepping back from the end of a text that the offset is beyond. -/
theorem stepBack_min (cs : List Char) (n : Nat) :
    stepBack cs (min n (byteLength cs)) = floorBoundary cs n := by
  rw [stepBack_eq]
  have hlast := isBoundary_floorBoundary cs n
  apply Nat.le_antisymm
  · exact le_floorBoundary (isBoundary_floorBoundary cs _)
      (Nat.le_trans (floorBoundary_le cs _) (Nat.min_le_left _ _))
  · exact le_floorBoundary hlast (Nat.le_min.2 ⟨floorBoundary_le cs n, hlast.le_byteLength⟩)

/-! ## Splitting -/

/-- At a boundary the text falls into what comes before and what comes after. -/
theorem splitAtByte_byteLength (before after : List Char) :
    splitAtByte (before ++ after) (byteLength before) = (before, after) := by
  induction before with
  | nil =>
    cases after with
    | nil => rfl
    | cons c after =>
      have hpos := c.utf8Size_pos
      rw [List.nil_append, byteLength_nil, splitAtByte, if_neg (by omega)]
  | cons c before ih =>
    rw [List.cons_append, byteLength_cons, splitAtByte, if_pos (Nat.le_add_right _ _),
      Nat.add_sub_cancel_left, ih]

/-! ## Slices -/

namespace IsSlice

/-- A slice begins what is left at its start. -/
theorem exists_splitAtByte_start (h : IsSlice cs start stop mid) :
    ∃ after, (splitAtByte cs start).2 = mid ++ after := by
  obtain ⟨before, after, rfl, rfl, -⟩ := h
  exact ⟨after, by rw [splitAtByte_byteLength]⟩

/-- A slice ends what comes before its stop. -/
theorem exists_splitAtByte_stop (h : IsSlice cs start stop mid) :
    ∃ before, (splitAtByte cs stop).1 = before ++ mid := by
  obtain ⟨before, after, rfl, rfl, rfl⟩ := h
  refine ⟨before, ?_⟩
  rw [← byteLength_append, ← List.append_assoc, splitAtByte_byteLength]

/-- Two slices that meet. -/
theorem append {middle : Nat} {first second : List Char} (h : IsSlice cs start middle first)
    (h' : IsSlice cs middle stop second) : IsSlice cs start stop (first ++ second) := by
  obtain ⟨after, hafter⟩ := h'.exists_splitAtByte_start
  obtain ⟨before, rest, rfl, rfl, rfl⟩ := h
  obtain ⟨-, -, -, -, rfl⟩ := h'
  have hrest : rest = second ++ after := by
    rwa [← byteLength_append, ← List.append_assoc, splitAtByte_byteLength] at hafter
  refine ⟨before, after, ?_, rfl, ?_⟩
  · rw [hrest, List.append_assoc]
  · rw [byteLength_append, Nat.add_assoc]

end IsSlice

end Markup.Text
