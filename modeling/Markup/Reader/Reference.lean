import Markup.Name

/-!
# References

A numeric reference denotes the character of its number, in decimal or, after `x`, in hexadecimal.
The digits are read as a number of 32 bits, which may overflow (`parse?`), and the number is decoded
(`ofCodePoint?`). All in all a reference denotes nothing when there are no digits or when the number
is not that of a Unicode scalar value (`character?_eq`). Where a replacement text is taken over as
it is, only its decimal references are replaced (`replaceDecimal`).
-/

namespace Markup.Reference

/-- The value of a digit in either case of hexadecimal. -/
def digitValue (c : Char) : Nat :=
  if c.isDigit then c.toNat - '0'.toNat
  else if 'a' ≤ c ∧ c ≤ 'f' then c.toNat - 'a'.toNat + 10
  else c.toNat - 'A'.toNat + 10

/-- Whether a character is a hexadecimal digit. -/
def isHexDigit (c : Char) : Bool :=
  c.isDigit || ('a' ≤ c && c ≤ 'f') || ('A' ≤ c && c ≤ 'F')

/-- Whether a character is a digit in decimal or in hexadecimal. -/
def isDigitOf (hexadecimal : Bool) (c : Char) : Bool :=
  if hexadecimal then isHexDigit c else c.isDigit

/-- The base of digits. -/
def base (hexadecimal : Bool) : Nat :=
  if hexadecimal then 16 else 10

/-- A number as one of 32 bits, unless it is too large. -/
def word? (n : Nat) : Option UInt32 :=
  if h : n < UInt32.size then some (.ofNatLT n h) else none

/-- A number with one more digit, unless the product or the sum is too large. -/
def push? (hexadecimal : Bool) (n : UInt32) (c : Char) : Option UInt32 :=
  (word? (n.toNat * base hexadecimal)).bind fun product => word? (product.toNat + digitValue c)

/-- The number of 32 bits that digits denote. There must be a digit. -/
def parse? (hexadecimal : Bool) (digits : List Char) : Option UInt32 :=
  if digits.isEmpty then none else digits.foldlM (push? hexadecimal) 0

/-- The character of a code point. Below 256 these are the characters of Latin-1. -/
def ofCodePoint? (code : UInt32) : Option Char :=
  if code < 256 then some (.ofUInt8 code.toUInt8)
  else if h : code.isValidChar then some ⟨code, h⟩
  else none

/-- The character that a numeric reference denotes. -/
def character? (hexadecimal : Bool) (digits : List Char) : Option Char :=
  (parse? hexadecimal digits).bind ofCodePoint?

/-! ## Numbers without a bound -/

/-- The number that digits denote. -/
def number (hexadecimal : Bool) (digits : List Char) : Nat :=
  digits.foldl (fun n c => n * base hexadecimal + digitValue c) 0

/-- The character of a number, if it is the number of one. -/
def scalar? (n : Nat) : Option Char :=
  if n.isValidChar then some (Char.ofNat n) else none

/-- No base is zero. -/
theorem base_pos (hexadecimal : Bool) : 0 < base hexadecimal := by
  cases hexadecimal <;> decide

/-- A number that has 32 bits is not changed. -/
theorem word?_toNat (n : UInt32) : word? n.toNat = some n := by
  rw [word?, dif_pos n.toNat_lt]
  exact congrArg some (UInt32.ofNatLT_toNat n)

/-- Digits only make a number larger. -/
theorem le_foldl (hexadecimal : Bool) (digits : List Char) (n : Nat) :
    n ≤ digits.foldl (fun n c => n * base hexadecimal + digitValue c) n := by
  induction digits generalizing n with
  | nil => exact Nat.le_refl n
  | cons c digits ih =>
    refine Nat.le_trans ?_ (ih _)
    exact Nat.le_trans (Nat.le_mul_of_pos_right n (base_pos hexadecimal)) (Nat.le_add_right _ _)

/-- Where the product is too large the sum is as well. -/
theorem push?_eq (hexadecimal : Bool) (n : UInt32) (c : Char) :
    push? hexadecimal n c = word? (n.toNat * base hexadecimal + digitValue c) := by
  by_cases h : n.toNat * base hexadecimal < UInt32.size
  · rw [push?, word?, dif_pos h]
    exact congrArg (fun product => word? (product + digitValue c)) UInt32.toNat_ofNatLT
  · have hsum : ¬n.toNat * base hexadecimal + digitValue c < UInt32.size := by omega
    rw [push?, word?, word?, dif_neg h, dif_neg hsum]
    rfl

/-- A number that is too large at one digit is still too large after the last. -/
theorem foldlM_push? (hexadecimal : Bool) (digits : List Char) (n : UInt32) :
    digits.foldlM (push? hexadecimal) n =
      word? (digits.foldl (fun n c => n * base hexadecimal + digitValue c) n.toNat) := by
  induction digits generalizing n with
  | nil => exact (word?_toNat n).symm
  | cons c digits ih =>
    rw [List.foldlM_cons, push?_eq, List.foldl_cons]
    by_cases h : n.toNat * base hexadecimal + digitValue c < UInt32.size
    · have hrest := ih (.ofNatLT _ h)
      rw [UInt32.toNat_ofNatLT] at hrest
      rw [word?, dif_pos h]
      exact hrest
    · have hlarge := le_foldl hexadecimal digits (n.toNat * base hexadecimal + digitValue c)
      rw [word?, dif_neg h, word?, dif_neg (by omega)]
      rfl

/-- A character is that of its own number. -/
theorem scalar?_toNat (c : Char) : scalar? c.toNat = some c := by
  have hvalid : c.toNat.isValidChar := c.valid
  rw [scalar?, if_pos hvalid, Char.ofNat_toNat]

/-- The characters of Latin-1 are those that have the same numbers. -/
theorem ofCodePoint?_eq (code : UInt32) : ofCodePoint? code = scalar? code.toNat := by
  rw [ofCodePoint?]
  split
  · rename_i hbyte
    have hlt : code.toNat < 256 := UInt32.lt_iff_toNat_lt.1 hbyte
    have hcode : (Char.ofUInt8 code.toUInt8).toNat = code.toNat := by
      show code.toUInt8.toUInt32.toNat = code.toNat
      rw [UInt8.toNat_toUInt32, UInt32.toNat_toUInt8, Nat.mod_eq_of_lt hlt]
    rw [← hcode, scalar?_toNat]
  · split
    · rename_i hvalid
      exact (scalar?_toNat ⟨code, hvalid⟩).symm
    · rename_i hinvalid
      exact (if_neg hinvalid).symm

/-- No character has a number of more than 32 bits. -/
theorem lt_size_of_isValidChar {n : Nat} (h : n.isValidChar) : n < UInt32.size := by
  rcases h with h | ⟨-, h⟩
  · exact Nat.lt_trans h (by decide)
  · exact Nat.lt_trans h (by decide)

/-- A numeric reference denotes the character of the number of its digits, if there are digits and
there is such a character. -/
theorem character?_eq (hexadecimal : Bool) (digits : List Char) :
    character? hexadecimal digits =
      if digits.isEmpty then none else scalar? (number hexadecimal digits) := by
  rw [character?, parse?]
  split
  · rfl
  · rw [foldlM_push?]
    show (word? (number hexadecimal digits)).bind ofCodePoint? = _
    by_cases h : number hexadecimal digits < UInt32.size
    · rw [word?, dif_pos h, Option.bind_some, ofCodePoint?_eq, UInt32.toNat_ofNatLT]
    · have hinvalid : ¬(number hexadecimal digits).isValidChar := mt lt_size_of_isValidChar h
      rw [word?, dif_neg h, scalar?, if_neg hinvalid]
      rfl

/-- One optional semicolon less. -/
def skipSemicolon : List Char → List Char
  | ';' :: rest => rest
  | rest => rest

/-- A semicolon less leaves no more characters. -/
theorem skipSemicolon_length_le (cs : List Char) : (skipSemicolon cs).length ≤ cs.length := by
  unfold skipSemicolon
  split <;> simp

/-- A text with its decimal references replaced by what they denote; a reference that denotes
nothing stays as it is. -/
def replaceDecimal : List Char → List Char
  | '&' :: '#' :: rest =>
    match character? false (rest.takeWhile Char.isDigit) with
    | some c => c :: replaceDecimal (skipSemicolon (rest.dropWhile Char.isDigit))
    | none => '&' :: '#' :: replaceDecimal rest
  | c :: rest => c :: replaceDecimal rest
  | [] => []
termination_by cs => cs.length
decreasing_by
  · have := skipSemicolon_length_le (rest.dropWhile Char.isDigit)
    have := (List.dropWhile_sublist Char.isDigit (l := rest)).length_le
    simp only [List.length_cons]
    omega
  · simp only [List.length_cons]; omega
  · simp only [List.length_cons]; omega

end Markup.Reference
