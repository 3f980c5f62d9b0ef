import Markup.Proofs.Reader.Token

/-!
# Raw text

Raw text goes on up to an end tag of its own element: `</` and the name of the element in any case,
with no name character after it. `Undelimited name text rest` says that no such end tag begins in
`text` when `rest` comes after it. Only the first character of `rest` matters, and it does not
matter at all which character that is, as long as it can neither go on with a name nor with `</`
(`Undelimited.of_stops`).
-/

namespace Markup.Reader

/-- Whether characters begin with a name in any case that no name character follows. -/
def beginsWithName : List Char → List Char → Bool
  | [], cs => !cs.head?.any isNameChar
  | x :: name, c :: cs => c.toUpper == x.toUpper && beginsWithName name cs
  | _ :: _, [] => false

/-- Whether characters begin with the end tag of an element of a name. -/
def beginsEndTag (name : List Char) : List Char → Bool
  | c :: d :: cs => c == '<' && d == '/' && beginsWithName name cs
  | _ => false

/-- No end tag begins in a text that is followed by `rest`. -/
def Undelimited (name : List Char) : List Char → List Char → Prop
  | [], _ => True
  | c :: text, rest => beginsEndTag name (c :: (text ++ rest)) = false ∧ Undelimited name text rest

/-- Whether a text is undelimited can be decided. -/
def decideUndelimited (name : List Char) : (text rest : List Char) →
    Decidable (Undelimited name text rest)
  | [], _ => isTrue trivial
  | c :: text, rest =>
    have := decideUndelimited name text rest
    inferInstanceAs
      (Decidable (beginsEndTag name (c :: (text ++ rest)) = false ∧ Undelimited name text rest))

instance (name text rest : List Char) : Decidable (Undelimited name text rest) :=
  decideUndelimited name text rest

variable {name text more rest : List Char}

/-- A text is undelimited when each of two parts is, seen where it stands. -/
theorem undelimited_append :
    Undelimited name (text ++ more) rest ↔
      Undelimited name text (more ++ rest) ∧ Undelimited name more rest := by
  induction text with
  | nil => simp [Undelimited]
  | cons c text ih => simp only [List.cons_append, Undelimited, List.append_assoc, ih, and_assoc]

/-- An end tag begins with `<`. -/
theorem beginsEndTag_of_ne {c : Char} (h : c ≠ '<') : beginsEndTag name (c :: text) = false := by
  cases text <;> simp [beginsEndTag, h]

/-- A text without `<` is undelimited. -/
theorem undelimited_of_forall_ne (h : ∀ c ∈ text, c ≠ '<') : Undelimited name text rest := by
  induction text with
  | nil => trivial
  | cons c text ih =>
    exact ⟨beginsEndTag_of_ne (h c (by simp)), ih fun d hd => h d (by simp [hd])⟩

/-! ## What follows the text -/

/-- What follows goes on neither with a name nor with `</`. -/
def Stops (rest : List Char) : Prop :=
  ∀ c, rest.head? = some c → isNameChar c = false ∧ c ≠ '/'

/-- At the end of the source no name goes on. -/
theorem stops_nil : Stops [] := fun _ h => by cases h

/-- A character that is neither part of a name nor a slash ends both. -/
theorem stops_cons {c : Char} (hc : isNameChar c = false) (hslash : c ≠ '/') :
    Stops (c :: rest) := by
  intro d hd
  simp only [List.head?_cons, Option.some.injEq] at hd
  subst hd
  exact ⟨hc, hslash⟩

/-- A name is not spelt across the end of a text. -/
theorem beginsWithName_append (hname : ∀ x ∈ name, isNameChar x = true) (hrest : Stops rest) :
    beginsWithName name (text ++ rest) = beginsWithName name text := by
  induction name generalizing text with
  | nil =>
    cases text with
    | cons c text => rfl
    | nil =>
      cases rest with
      | nil => rfl
      | cons d rest => simp [beginsWithName, (hrest d rfl).1]
  | cons x name ih =>
    cases text with
    | cons c text =>
      rw [List.cons_append, beginsWithName, beginsWithName, ih fun y hy => hname y (by simp [hy])]
    | nil =>
      cases rest with
      | nil => rfl
      | cons d rest =>
        have hx : isNameChar x.toUpper = true := by
          rw [isNameChar_toUpper]
          exact hname x (by simp)
        have hd : isNameChar d.toUpper = false := by
          rw [isNameChar_toUpper]
          exact (hrest d rfl).1
        simp [beginsWithName, (ne_of_isNameChar hx hd).symm]

/-- An end tag is not spelt across the end of a text that is not empty. -/
theorem beginsEndTag_append {c : Char} (hname : ∀ x ∈ name, isNameChar x = true)
    (hrest : Stops rest) :
    beginsEndTag name (c :: (text ++ rest)) = beginsEndTag name (c :: text) := by
  cases text with
  | cons d text =>
    rw [List.cons_append, beginsEndTag, beginsEndTag, beginsWithName_append hname hrest]
  | nil =>
    cases rest with
    | nil => rfl
    | cons d rest => simp [beginsEndTag, (hrest d rfl).2]

/-- What a text is followed by does not matter if it stops the text. -/
theorem undelimited_iff_of_stops (hname : ∀ x ∈ name, isNameChar x = true) (hrest : Stops rest) :
    Undelimited name text rest ↔ Undelimited name text [] := by
  induction text with
  | nil => exact Iff.rfl
  | cons c text ih =>
    rw [Undelimited, Undelimited, beginsEndTag_append hname hrest, List.append_nil, ih]

/-! ## Occurrences of the end tag -/

/-- Characters that begin with a name spell it and go on with no name character. -/
theorem exists_of_beginsWithName (h : beginsWithName name text = true) :
    ∃ spelling after, text = spelling ++ after ∧
      spelling.map Char.toUpper = name.map Char.toUpper ∧ after.head?.any isNameChar = false := by
  induction name generalizing text with
  | nil => exact ⟨[], text, rfl, rfl, by simpa [beginsWithName] using h⟩
  | cons x name ih =>
    cases text with
    | nil => cases h
    | cons c text =>
      simp only [beginsWithName, Bool.and_eq_true, beq_iff_eq] at h
      obtain ⟨spelling, after, rfl, hspelling, hafter⟩ := ih h.2
      exact ⟨c :: spelling, after, rfl, by rw [List.map_cons, List.map_cons, h.1, hspelling],
        hafter⟩

/-- A text is undelimited if every `</` followed by the name in any case is followed by a name
character. -/
theorem undelimited_of_occurrences
    (h : ∀ before spelling after, text = before ++ ('<' :: '/' :: spelling) ++ after →
      spelling.map Char.toUpper = name.map Char.toUpper → after.head?.any isNameChar = true) :
    Undelimited name text [] := by
  induction text with
  | nil => trivial
  | cons c text ih =>
    constructor
    · rw [List.append_nil]
      cases hbegins : beginsEndTag name (c :: text) with
      | false => rfl
      | true =>
        cases text with
        | nil => cases hbegins
        | cons d text =>
          simp only [beginsEndTag, Bool.and_eq_true, beq_iff_eq] at hbegins
          obtain ⟨⟨rfl, rfl⟩, hname⟩ := hbegins
          obtain ⟨spelling, after, rfl, hspelling, hafter⟩ := exists_of_beginsWithName hname
          have hnameChar := h [] spelling after rfl hspelling
          rw [hafter] at hnameChar
          cases hnameChar
    · refine ih fun before spelling after htext => h (c :: before) spelling after ?_
      rw [htext]
      rfl

/-- A name in another case is spelt the same. -/
theorem beginsWithName_congr {name name' cs : List Char}
    (h : name.map Char.toUpper = name'.map Char.toUpper) :
    beginsWithName name cs = beginsWithName name' cs := by
  induction name generalizing name' cs with
  | nil =>
    cases name' with
    | nil => rfl
    | cons x name' => cases h
  | cons x name ih =>
    cases name' with
    | nil => cases h
    | cons y name' =>
      simp only [List.map_cons, List.cons.injEq] at h
      cases cs with
      | nil => rfl
      | cons c cs => rw [beginsWithName, beginsWithName, h.1, ih h.2]

/-- After a part of a name in any case, the rest of the name is what counts. -/
theorem beginsWithName_of_spelling {name spelling expected cs : List Char}
    (h : (spelling ++ expected).map Char.toUpper = name.map Char.toUpper) :
    beginsWithName name (spelling ++ cs) = beginsWithName expected cs := by
  induction spelling generalizing name with
  | nil => exact beginsWithName_congr h.symm
  | cons c spelling ih =>
    cases name with
    | nil => cases h
    | cons x name =>
      simp only [List.cons_append, List.map_cons, List.cons.injEq] at h
      rw [List.cons_append, beginsWithName, h.1, ih h.2]
      simp

/-- A text is undelimited just when every `</` followed by the name in any case is followed by a
name character. -/
theorem undelimited_iff_occurrences :
    Undelimited name text [] ↔
      ∀ before spelling after, text = before ++ ('<' :: '/' :: spelling) ++ after →
        spelling.map Char.toUpper = name.map Char.toUpper →
        after.head?.any isNameChar = true := by
  refine ⟨?_, undelimited_of_occurrences⟩
  rintro h before spelling after rfl hspelling
  rw [List.append_assoc, undelimited_append] at h
  have hbegins : beginsWithName name (spelling ++ after) = false := by
    simpa [beginsEndTag] using h.2.1
  have hrest : beginsWithName [] after = false := by
    rwa [beginsWithName_of_spelling (by rwa [List.append_nil])] at hbegins
  simpa [beginsWithName] using hrest

end Markup.Reader
