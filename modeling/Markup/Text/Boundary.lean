import Markup.Text.Bytes

/-!
# Offsets between characters

An offset into a text is a boundary if it lies between two characters or at either end. Two
boundaries in order enclose a slice of the text (`IsSlice`, `exists_isSlice`), which is what `slice`
cuts out (`slice_of_isSlice`).
-/

namespace Markup.Text

/-- Whether an offset lies between two characters of a text or at either end. -/
def IsBoundary (cs : List Char) (n : Nat) : Prop :=
  ∃ before after, cs = before ++ after ∧ byteLength before = n

/-- Whether `mid` are the characters of a text between two boundaries. -/
def IsSlice (cs : List Char) (start stop : Nat) (mid : List Char) : Prop :=
  ∃ before after, cs = before ++ (mid ++ after) ∧ byteLength before = start ∧
    start + byteLength mid = stop

variable {cs before mid after : List Char} {m n start stop : Nat}

/-! ## Boundaries -/

/-- A text begins at a boundary. -/
theorem isBoundary_zero (cs : List Char) : IsBoundary cs 0 :=
  ⟨[], cs, rfl, rfl⟩

/-- Only the empty text has no bytes. -/
theorem byteLength_eq_zero (h : byteLength cs = 0) : cs = [] := by
  cases cs with
  | nil => rfl
  | cons c cs =>
    have hpos := c.utf8Size_pos
    rw [byteLength_cons] at h
    omega

/-- What is left when bytes are dropped comes after that many bytes. -/
theorem exists_of_dropBytes? (h : dropBytes? cs n = some after) :
    ∃ before, cs = before ++ after ∧ byteLength before = n := by
  fun_induction dropBytes? cs n with
  | case1 cs => exact ⟨[], Option.some.inj h, rfl⟩
  | case2 => cases h
  | case3 c cs n hfits ih =>
    obtain ⟨before, rfl, hlength⟩ := ih h
    refine ⟨c :: before, rfl, ?_⟩
    rw [byteLength_cons]
    omega
  | case4 => cases h

/-- An offset is a boundary exactly if the bytes before it can be dropped. -/
theorem isSome_dropBytes?_iff : (dropBytes? cs n).isSome = true ↔ IsBoundary cs n := by
  constructor
  · intro h
    obtain ⟨after, hafter⟩ := Option.isSome_iff_exists.1 h
    obtain ⟨before, hcs, hlength⟩ := exists_of_dropBytes? hafter
    exact ⟨before, after, hcs, hlength⟩
  · rintro ⟨before, after, rfl, rfl⟩
    rw [dropBytes?_append]
    rfl

instance (cs : List Char) : DecidablePred (IsBoundary cs) :=
  fun _ => decidable_of_iff _ isSome_dropBytes?_iff

/-- A boundary is no further on than the end of the text. -/
theorem IsBoundary.le_byteLength (h : IsBoundary cs n) : n ≤ byteLength cs := by
  obtain ⟨before, after, rfl, rfl⟩ := h
  rw [byteLength_append]
  exact Nat.le_add_right _ _

/-- The boundaries of the start of a text are those of the text that do not come after it. -/
theorem isBoundary_append (before after : List Char) :
    IsBoundary before m ↔ IsBoundary (before ++ after) m ∧ m ≤ byteLength before := by
  constructor
  · rintro ⟨first, second, rfl, rfl⟩
    refine ⟨⟨first, second ++ after, List.append_assoc _ _ _, rfl⟩, ?_⟩
    rw [byteLength_append]
    exact Nat.le_add_right _ _
  · rintro ⟨⟨first, second, hsplit, rfl⟩, hle⟩
    rcases List.append_eq_append_iff.1 hsplit with ⟨more, rfl, -⟩ | ⟨more, rfl, -⟩
    · -- what comes after the start takes no bytes, so it is empty
      rw [byteLength_append] at hle
      have hmore : more = [] := byteLength_eq_zero (by omega)
      subst hmore
      exact ⟨before, [], (List.append_nil _).symm, by rw [List.append_nil]⟩
    · exact ⟨first, more, rfl, rfl⟩

/-! ## Stepping back to a boundary -/

/-- The last boundary up to an offset, found by stepping back from the offset. -/
def stepBack (cs : List Char) : Nat → Nat
  | 0 => 0
  | n + 1 => if IsBoundary cs (n + 1) then n + 1 else stepBack cs n

/-- Stepping back ends at a boundary. -/
theorem isBoundary_stepBack (cs : List Char) (n : Nat) : IsBoundary cs (stepBack cs n) := by
  induction n with
  | zero => exact isBoundary_zero cs
  | succ n ih =>
    rw [stepBack]
    split
    · assumption
    · exact ih

/-! ## Slices -/

namespace IsSlice

/-- A slice begins at a boundary. -/
theorem isBoundary_start (h : IsSlice cs start stop mid) : IsBoundary cs start := by
  obtain ⟨before, after, hcs, hstart, -⟩ := h
  exact ⟨before, mid ++ after, hcs, hstart⟩

/-- A slice ends at a boundary. -/
theorem isBoundary_stop (h : IsSlice cs start stop mid) : IsBoundary cs stop := by
  obtain ⟨before, after, hcs, hstart, hstop⟩ := h
  refine ⟨before ++ mid, after, ?_, ?_⟩
  · rw [hcs, List.append_assoc]
  · rw [byteLength_append, hstart, hstop]

/-- The first part of a slice is a slice. -/
theorem left {first second : List Char} (h : IsSlice cs start stop (first ++ second)) :
    IsSlice cs start (start + byteLength first) first := by
  obtain ⟨before, after, hcs, hstart, -⟩ := h
  exact ⟨before, second ++ after, by rw [hcs, List.append_assoc], hstart, rfl⟩

/-- The second part of a slice is a slice. -/
theorem right {first second : List Char} (h : IsSlice cs start stop (first ++ second)) :
    IsSlice cs (start + byteLength first) stop second := by
  obtain ⟨before, after, hcs, hstart, hstop⟩ := h
  refine ⟨before ++ first, after, ?_, ?_, ?_⟩
  · simp only [hcs, List.append_assoc]
  · rw [byteLength_append, hstart]
  · rw [← hstop, byteLength_append, Nat.add_assoc]

end IsSlice

/-- The characters between two boundaries that are in order. -/
theorem exists_isSlice (hstart : IsBoundary cs start) (hstop : IsBoundary cs stop)
    (hle : start ≤ stop) : ∃ mid, IsSlice cs start stop mid := by
  obtain ⟨upto, after, rfl, rfl⟩ := hstop
  obtain ⟨before, mid, rfl, rfl⟩ := (isBoundary_append upto after).2 ⟨hstart, hle⟩
  exact ⟨mid, before, after, List.append_assoc _ _ _, rfl, (byteLength_append _ _).symm⟩

/-- What is cut out between two boundaries is the slice between them. -/
theorem slice_of_isSlice (h : IsSlice cs start stop mid) : slice cs start stop = mid := by
  obtain ⟨before, after, rfl, rfl, rfl⟩ := h
  exact slice_append before mid after

end Markup.Text
