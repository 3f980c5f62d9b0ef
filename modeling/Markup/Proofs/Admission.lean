import Markup.OpenElements

/-!
# Admission of elements

Whether an element is admitted right inside the open elements is decided from what is kept beside
the stack, and whether it would be admitted after some of them had ended from the stack itself.
Both give the same answer where both apply (`admits_ofStack`), so ending as many elements as
`closingsFor?` says has the element admitted (`admits_of_closingsFor`).

The declarations admit an element by a rule about the outermost `n` open elements (`Admits`). Both
ways of deciding are measured against it (`admits_iff`, `admitsIn_iff`), and the search for the
number of elements to end finds the greatest `n` that admits (`lastAdmitting_of_closingsFor`,
`not_admits_of_closingsFor`).
-/

namespace Markup

namespace NameSet

@[simp] theorem has_empty (n : Name) : has .empty n = false := rfl

/-- A set with a name more has that name and those it had. -/
theorem has_insert (s : NameSet) (m n : Name) : has (s.insert m) n = (m == n || s.has n) := by
  unfold has Registry.contains
  rw [Registry.find?_insert]
  by_cases h : m = n
  · subst h
    simp [Keyed.key]
  · have hkey : Keyed.key m ≠ n.text := fun e => h (Name.ext e)
    simp [hkey, h]

/-- A set with names added has those and the ones it had. -/
theorem has_insertMany (s : NameSet) (ms : List Name) (n : Name) :
    has (s.insertMany ms) n = (s.has n || ms.contains n) := by
  unfold Registry.insertMany
  induction ms generalizing s with
  | nil => simp
  | cons m ms ih =>
    rw [List.foldl_cons, ih, has_insert, List.contains_cons]
    cases h : m == n
    · have h' : (n == m) = false := by
        simp only [beq_eq_false_iff_ne] at h ⊢
        exact Ne.symm h
      simp [h']
    · have h' : (n == m) = true := by
        simp only [beq_iff_eq] at h ⊢
        exact h.symm
      simp [h']

/-- A set has the names that are among its items. -/
theorem contains_items (s : NameSet) (n : Name) : s.items.contains n = s.has n := by
  rw [Bool.eq_iff_iff, List.contains_iff_mem, has, Registry.contains, Option.isSome_iff_exists]
  constructor
  · intro h
    exact ⟨n, Registry.find?_of_mem h⟩
  · rintro ⟨m, hm⟩
    obtain ⟨hmem, hkey⟩ := Registry.find?_eq_some hm
    rwa [Name.ext hkey] at hmem

/-- A union has the names of both sets. -/
@[simp] theorem has_union (s t : NameSet) (n : Name) :
    has (s.union t) n = (s.has n || t.has n) := by
  rw [union, has_insertMany, contains_items]

/-- A union over a list of elements has the names that one of them has. -/
theorem has_foldr_union (names : Element → NameSet) (stack : List Element) (n : Name) :
    has (stack.foldr (fun e s => s.union (names e)) .empty) n =
      stack.any fun e => (names e).has n := by
  induction stack with
  | nil => rfl
  | cons e stack ih => rw [List.foldr_cons, has_union, ih, List.any_cons, Bool.or_comm]

end NameSet

namespace OpenElements

variable {d : Dtd} {s : OpenElements} {e : Element}

/-- What is kept beside the stack decides admission as the whole stack does. -/
theorem admits_ofStack (d : Dtd) (stack : List Element) (e : Element) :
    (ofStack stack).admits d e = admitsIn d stack stack e := by
  have hexclusions : (ofStack stack).exclusions.has e.name = stack.any (·.excludes e.name) :=
    NameSet.has_foldr_union Element.exclusions stack e.name
  have hinclusions : (ofStack stack).inclusions.has e.name = stack.any (·.includes e.name) :=
    NameSet.has_foldr_union Element.inclusions stack e.name
  unfold admits admitsIn
  rw [hexclusions, hinclusions]
  rfl

/-- Outside all elements any element is admitted. -/
theorem documentAdmits_nil (d : Dtd) (e : Element) : documentAdmits d [] e = true := by
  simp [documentAdmits]

/-- An element that some open elements admit is admitted when only they are left. -/
theorem admitsIn_self {stack within : List Element} (h : admitsIn d stack within e = true) :
    admitsIn d within within e = true := by
  unfold admitsIn at h ⊢
  cases within with
  | nil => simp [documentAdmits_nil]
  | cons parent rest => exact h

/-- Once the elements that stand in the way have ended, the element is admitted. -/
theorem admits_of_closingsFor {n : Nat} (h : s.closingsFor? d e = some n) :
    (ofStack (s.stack.drop n)).admits d e = true := by
  unfold closingsFor? at h
  rw [admits_ofStack]
  exact admitsIn_self (by simpa using List.find?_some h)

/-! ## The rule -/

/-- The rule of admission: the outermost `n` of the open elements, listed from the outside, admit an
element. None of them excludes it, and either the innermost of them has it in its content model or
one of them includes it, or there is none of them and the document takes the element. -/
def Admits (d : Dtd) (opened : List Element) (n : Nat) (e : Element) : Prop :=
  (∀ x ∈ opened.take n, x.excludes e.name = false) ∧
    ((0 < n ∧
        ((∃ x, opened[n - 1]? = some x ∧ x.content.hasModel = true ∧ x.model.has e.name = true) ∨
          ∃ x ∈ opened.take n, x.includes e.name = true)) ∨
      (n = 0 ∧ (e.name = d.root ∨ opened = [] ∨ ∃ x, opened[0]? = some x ∧ x.name ≠ d.root)))

/-- The greatest number of outermost elements that admit an element. -/
structure LastAdmitting (d : Dtd) (opened : List Element) (e : Element) (n : Nat) : Prop where
  /-- There are that many elements. -/
  le : n ≤ opened.length
  /-- They admit the element. -/
  admits : Admits d opened n e
  /-- No greater number admits it. -/
  greatest : ∀ m, n < m → m ≤ opened.length → ¬Admits d opened m e

/-- There is one greatest depth that admits an element. -/
theorem LastAdmitting.unique {opened : List Element} {m n : Nat} (h : LastAdmitting d opened e m)
    (h' : LastAdmitting d opened e n) : m = n := by
  rcases Nat.lt_trichotomy m n with hlt | heq | hlt
  · exact absurd h'.admits (h.greatest n hlt h'.le)
  · exact heq
  · exact absurd h.admits (h'.greatest m hlt h.le)

/-- Outside all elements the decision from the stack follows the rule. -/
theorem documentAdmits_iff {stack : List Element} :
    documentAdmits d stack e = true ↔
      e.name = d.root ∨ stack.reverse = [] ∨
        ∃ x, stack.reverse[0]? = some x ∧ x.name ≠ d.root := by
  rw [documentAdmits, Bool.or_eq_true, beq_iff_eq, ← List.head?_eq_getElem?, List.head?_reverse,
    List.reverse_eq_nil_iff]
  apply or_congr Iff.rfl
  cases hlast : stack.getLast? with
  | none =>
    rw [List.getLast?_eq_none_iff] at hlast
    simp [hlast]
  | some x =>
    have hne : stack ≠ [] := by
      rintro rfl
      cases hlast
    simp [hne]

/-- The decision from the stack follows the rule. -/
theorem admitsIn_iff {stack : List Element} {n : Nat} (hn : n ≤ stack.length) :
    admitsIn d stack (stack.drop (stack.length - n)) e = true ↔ Admits d stack.reverse n e := by
  have htake : stack.reverse.take n = (stack.drop (stack.length - n)).reverse := List.take_reverse
  unfold admitsIn Admits
  rw [Bool.and_eq_true, htake]
  apply and_congr
  · simp [List.any_eq_false]
  · rcases Nat.eq_zero_or_pos n with rfl | hpos
    · have hdrop : stack.drop (stack.length - 0) = [] := List.drop_length
      rw [hdrop]
      simp only [documentAdmits_iff]
      simp
    · have hinner : stack.reverse[n - 1]? = (stack.drop (stack.length - n)).head? := by
        rw [List.getElem?_reverse (by omega), List.head?_drop]
        congr 1
        omega
      rw [hinner]
      cases hwithin : stack.drop (stack.length - n) with
      | nil =>
        have hlength := congrArg List.length hwithin
        simp only [List.length_drop, List.length_nil] at hlength
        omega
      | cons parent rest =>
        have hne : n ≠ 0 := by omega
        have hinclusion : (∃ x ∈ (parent :: rest).reverse, x.includes e.name = true) ↔
            (parent :: rest).any (·.includes e.name) = true := by
          simp only [List.mem_reverse, List.any_eq_true]
        rw [hinclusion]
        simp [Element.accepts, hpos, hne]

/-- The decision from what is kept beside the stack follows the rule. -/
theorem admits_iff (hcached : s = ofStack s.stack) :
    s.admits d e = true ↔ Admits d s.stack.reverse s.stack.length e := by
  rw [← admitsIn_iff (Nat.le_refl _), Nat.sub_self, List.drop_zero, hcached, admits_ofStack]
  rfl

/-- An element that is admitted right here is admitted by all open elements. -/
theorem lastAdmitting_of_admits (hcached : s = ofStack s.stack) (h : s.admits d e = true) :
    LastAdmitting d s.stack.reverse e s.stack.length := by
  refine ⟨by simp, (admits_iff hcached).1 h, fun m hlt hle => ?_⟩
  rw [List.length_reverse] at hle
  omega

/-- A number of elements to end, at least one, leaves elements that may admit. -/
theorem closingsFor_eq_some_iff {n : Nat} :
    s.closingsFor? d e = some n ↔
      1 ≤ n ∧ n ≤ s.stack.length ∧ admitsIn d s.stack (s.stack.drop n) e = true ∧
        ∀ m, 1 ≤ m → m < n → admitsIn d s.stack (s.stack.drop m) e = false := by
  unfold closingsFor?
  rw [List.find?_map, Option.map_eq_some_iff]
  simp only [List.find?_range_eq_some, Function.comp_apply, Bool.not_eq_true', List.mem_range]
  constructor
  · rintro ⟨i, ⟨hadmits, hlt, hleast⟩, rfl⟩
    refine ⟨by omega, hlt, hadmits, fun m hm hlt => ?_⟩
    have hprevious := hleast (m - 1) (by omega)
    rwa [Nat.sub_add_cancel hm] at hprevious
  · rintro ⟨hpos, hle, hadmits, hleast⟩
    refine ⟨n - 1, ⟨?_, by omega, fun j hj => hleast (j + 1) (by omega) (by omega)⟩, by omega⟩
    rwa [Nat.sub_add_cancel hpos]

/-- What the search finds leaves the greatest number of elements that admit. -/
theorem lastAdmitting_of_closingsFor {n : Nat} (hcached : s = ofStack s.stack)
    (hnot : s.admits d e = false) (h : s.closingsFor? d e = some n) :
    LastAdmitting d s.stack.reverse e (s.stack.length - n) := by
  obtain ⟨hpos, hle, hadmits, hleast⟩ := closingsFor_eq_some_iff.1 h
  refine ⟨by simp, ?_, fun m hlt hm hadmitsm => ?_⟩
  · rw [← admitsIn_iff (Nat.sub_le _ _), Nat.sub_sub_self hle]
    exact hadmits
  · rw [List.length_reverse] at hm
    rcases Nat.eq_or_lt_of_le hm with rfl | hm'
    · rw [← admits_iff hcached, hnot] at hadmitsm
      cases hadmitsm
    · rw [← admitsIn_iff hm, hleast _ (by omega) (by omega)] at hadmitsm
      cases hadmitsm

/-- When the search finds nothing, no number of elements admits. -/
theorem not_admits_of_closingsFor {n : Nat} (hcached : s = ofStack s.stack)
    (hnot : s.admits d e = false) (h : s.closingsFor? d e = Option.none)
    (hn : n ≤ s.stack.length) : ¬Admits d s.stack.reverse n e := by
  rcases Nat.eq_or_lt_of_le hn with rfl | hlt
  · rw [← admits_iff hcached, hnot]
    exact Bool.false_ne_true
  · have hnone := List.find?_eq_none.1 h (s.stack.length - n)
      (List.mem_map.2 ⟨s.stack.length - n - 1, List.mem_range.2 (by omega), by omega⟩)
    rwa [← admitsIn_iff hn]

end OpenElements

end Markup
