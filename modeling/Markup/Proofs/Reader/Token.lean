import Markup.Reader.Mode

/-!
# Names in markup

A name is spelt in markup as a letter followed by name characters. Such a name is a *token*. Tokens
are built a character at a time (`isToken_singleton`, `isToken_push`), and putting one in upper case
gives a token again (`isToken_fold`).
-/

namespace Markup

/-- Whether characters spell a name: a letter, then name characters. -/
def isTokenList : List Char → Bool
  | [] => false
  | c :: rest => Reader.isNameStart c && rest.all Reader.isNameChar

/-- Whether a text is a name as markup spells names. -/
def isToken (text : String) : Bool :=
  isTokenList text.toList

namespace Reader

/-! ## Name characters -/

/-- The characters that begin a name are the letters. -/
theorem isNameStart_eq (c : Char) :
    isNameStart c = (decide ('A'.val ≤ c.val ∧ c.val ≤ 'Z'.val) ||
      (decide ('a'.val ≤ c.val) && decide (c.val ≤ 'z'.val))) := rfl

/-- The characters that go on with a name are letters, digits, dots and hyphens. -/
theorem isNameChar_eq (c : Char) :
    isNameChar c = (isNameStart c || (decide ('0'.val ≤ c.val) && decide (c.val ≤ '9'.val)) ||
      c == '.' || c == '-') := rfl

/-- What begins a name may also go on with one. -/
theorem isNameChar_of_isNameStart {c : Char} (h : isNameStart c = true) : isNameChar c = true := by
  rw [isNameChar_eq, h]
  rfl

/-- Folding keeps the characters that begin names. -/
@[simp] theorem isNameStart_toUpper (c : Char) : isNameStart c.toUpper = isNameStart c := by
  rw [isNameStart_eq, isNameStart_eq]
  unfold Char.toUpper
  grind

/-- Folding keeps the characters of names. -/
@[simp] theorem isNameChar_toUpper (c : Char) : isNameChar c.toUpper = isNameChar c := by
  rw [isNameChar_eq, isNameChar_eq, isNameStart_eq, isNameStart_eq]
  unfold Char.toUpper
  grind

/-- A name character differs from every character that is none. -/
theorem ne_of_isNameChar {c d : Char} (hc : isNameChar c = true) (hd : isNameChar d = false) :
    c ≠ d := by
  rintro rfl
  rw [hc] at hd
  cases hd

/-- A blank is no name character. -/
theorem not_isBlank_of_isNameChar {c : Char} (h : isNameChar c = true) :
    Text.isBlank c = false := by
  have hbounds : (0x2d ≤ c.toNat ∧ c.toNat ≤ 0x2e) ∨ (0x30 ≤ c.toNat ∧ c.toNat ≤ 0x39) ∨
      (0x41 ≤ c.toNat ∧ c.toNat ≤ 0x5a) ∨ (0x61 ≤ c.toNat ∧ c.toNat ≤ 0x7a) := by
    rw [isNameChar_eq, isNameStart_eq] at h
    simp only [Bool.or_eq_true, Bool.and_eq_true, decide_eq_true_eq, beq_iff_eq,
      UInt32.le_iff_toNat_le] at h
    rcases h with (((h | h) | h) | rfl) | rfl
    · exact .inr (.inr (.inl h))
    · exact .inr (.inr (.inr h))
    · exact .inr (.inl h)
    · exact .inl (by decide)
    · exact .inl (by decide)
  simp only [Text.isBlank, Text.blankRanges, Text.covers]
  rw [if_neg (by omega), if_neg (by omega), if_neg (by omega), if_neg (by omega),
    if_pos (by omega)]

end Reader

/-! ## Tokens -/

open Reader

/-- One character that begins names is a token. -/
theorem isToken_singleton {c : Char} (h : isNameStart c = true) :
    isToken (String.singleton c) = true := by
  simp [isToken, isTokenList, h]

/-- A token goes on with characters of names. -/
theorem isToken_push {text : String} {c : Char} (h : isToken text = true)
    (hc : isNameChar c = true) : isToken (text.push c) = true := by
  unfold isToken at h ⊢
  rw [String.toList_push]
  cases hs : text.toList with
  | nil =>
    rw [hs] at h
    cases h
  | cons d rest =>
    rw [hs] at h
    simp only [isTokenList, Bool.and_eq_true] at h
    simp [isTokenList, h, hc]

/-- The case of letters does not matter to tokens. -/
theorem isToken_toUpper (text : String) : isToken text.toUpper = isToken text := by
  unfold isToken
  rw [String.toUpper, String.toList_map]
  cases text.toList with
  | nil => rfl
  | cons d rest => simp [isTokenList, Function.comp_def]

/-- A token in upper case is a token. -/
theorem isToken_fold {text : String} (h : isToken text = true) :
    isToken (Name.fold text).text = true :=
  (isToken_toUpper text).trans h

/-- The characters of a token. -/
theorem exists_of_isTokenList {cs : List Char} (h : isTokenList cs = true) :
    ∃ c rest, cs = c :: rest ∧ isNameStart c = true ∧ ∀ d ∈ rest, isNameChar d = true := by
  cases cs with
  | nil => cases h
  | cons c rest =>
    simp only [isTokenList, Bool.and_eq_true, List.all_eq_true] at h
    exact ⟨c, rest, rfl, h.1, h.2⟩

/-- Every character of a token is a name character. -/
theorem isNameChar_of_mem_token {cs : List Char} (h : isTokenList cs = true) {c : Char}
    (hc : c ∈ cs) : isNameChar c = true := by
  obtain ⟨d, rest, rfl, hstart, hrest⟩ := exists_of_isTokenList h
  rcases List.mem_cons.1 hc with rfl | hc
  · exact isNameChar_of_isNameStart hstart
  · exact hrest c hc

end Markup
