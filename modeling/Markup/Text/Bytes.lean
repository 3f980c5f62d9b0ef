/-!
# Offsets in bytes

Offsets into a text count the bytes of its UTF-8 form. A list of characters is split at an offset
by taking whole characters while they fit, so an offset inside a character is moved back to where
the character begins, and one past the end to the end.
-/

namespace Markup.Text

/-- The number of bytes of a list of characters. -/
def byteLength : List Char → Nat
  | [] => 0
  | c :: cs => c.utf8Size + byteLength cs

/-- The characters that fit into a number of bytes, and those after them. -/
def splitAtByte : List Char → Nat → List Char × List Char
  | [], _ => ([], [])
  | c :: cs, n =>
    if c.utf8Size ≤ n then
      let (before, after) := splitAtByte cs (n - c.utf8Size)
      (c :: before, after)
    else ([], c :: cs)

/-- The characters after an offset, if it lies between two characters or at either end. -/
def dropBytes? : List Char → Nat → Option (List Char)
  | cs, 0 => some cs
  | [], _ + 1 => none
  | c :: cs, n + 1 =>
    if c.utf8Size ≤ n + 1 then dropBytes? cs (n + 1 - c.utf8Size) else none

/-- The characters before an offset, if it lies between two characters or at either end. -/
def takeBytes? : List Char → Nat → Option (List Char)
  | _, 0 => some []
  | [], _ + 1 => none
  | c :: cs, n + 1 =>
    if c.utf8Size ≤ n + 1 then (takeBytes? cs (n + 1 - c.utf8Size)).map (c :: ·) else none

/-- The characters between two offsets; none when the offsets are reversed or not between
characters. -/
def slice (cs : List Char) (start stop : Nat) : List Char :=
  if start ≤ stop then ((dropBytes? cs start).bind (takeBytes? · (stop - start))).getD [] else []

@[simp] theorem byteLength_nil : byteLength [] = 0 := rfl

@[simp] theorem byteLength_cons (c : Char) (cs : List Char) :
    byteLength (c :: cs) = c.utf8Size + byteLength cs := rfl

/-- The bytes of two texts are counted one after the other. -/
@[simp] theorem byteLength_append (xs ys : List Char) :
    byteLength (xs ++ ys) = byteLength xs + byteLength ys := by
  induction xs with
  | nil => simp
  | cons c xs ih => simp [ih, Nat.add_assoc]

/-- The bytes of some characters can be dropped. -/
theorem dropBytes?_append (xs ys : List Char) :
    dropBytes? (xs ++ ys) (byteLength xs) = some ys := by
  induction xs with
  | nil => cases ys <;> rfl
  | cons c xs ih =>
    obtain ⟨n, hn⟩ : ∃ n, c.utf8Size + byteLength xs = n + 1 :=
      Nat.exists_eq_add_one_of_ne_zero (by have := c.utf8Size_pos; omega)
    rw [byteLength_cons, hn, List.cons_append, dropBytes?, if_pos (by omega), ← hn,
      Nat.add_sub_cancel_left]
    exact ih

/-- The bytes of some characters can be taken. -/
theorem takeBytes?_append (xs ys : List Char) :
    takeBytes? (xs ++ ys) (byteLength xs) = some xs := by
  induction xs with
  | nil => cases ys <;> rfl
  | cons c xs ih =>
    obtain ⟨n, hn⟩ : ∃ n, c.utf8Size + byteLength xs = n + 1 :=
      Nat.exists_eq_add_one_of_ne_zero (by have := c.utf8Size_pos; omega)
    rw [byteLength_cons, hn, List.cons_append, takeBytes?, if_pos (by omega), ← hn,
      Nat.add_sub_cancel_left, ih]
    rfl

/-- The characters between the offsets of their ends. -/
theorem slice_append (xs ys zs : List Char) :
    slice (xs ++ (ys ++ zs)) (byteLength xs) (byteLength xs + byteLength ys) = ys := by
  rw [slice, if_pos (by omega), dropBytes?_append, Option.bind_some, Nat.add_sub_cancel_left,
    takeBytes?_append]
  rfl

end Markup.Text
