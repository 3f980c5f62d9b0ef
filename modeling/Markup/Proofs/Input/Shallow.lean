import Markup.Proofs.Input.OpenEntities

/-!
# Inputs without nested entities

An input is shallow if at most one entity is being expanded, above everything else, and ampersands
come from outside its text (`Input.Shallow`). Looking, taking and expanding an entity keep an input
shallow, as long as it is held only where no entity is being expanded and the text of the entity
holds no ampersand (`Shallow.peek`, `Shallow.consume`, `Shallow.pushEntity`).
-/

namespace Markup

/-- Expansions that replace no entity. -/
theorem entity_eq_none {xs : List Expansion} {x : Expansion} (h : openNames xs = []) (hx : x ∈ xs) :
    x.entity = none :=
  List.filterMap_eq_nil_iff.1 h x hx

namespace Input

/-- At most one entity is being expanded, above all that was put back; its text holds no ampersand,
and an ampersand is put back only where none is being expanded. -/
structure Shallow (i : Input) : Prop where
  /-- Below the innermost expansion no entity is being expanded. -/
  below : Markup.openNames i.expansions.tail = []
  /-- The text of an entity holds no ampersand. -/
  plain : ∀ x ∈ i.expansions, x.entity.isSome = true → '&' ∉ x.rest
  /-- An ampersand that is put back is apart from all entities. -/
  ampersand : i.pushback = some '&' → i.openNames = []

variable {i j : Input} {name text : String}

/-- An input in which no entity is being expanded is shallow. -/
theorem shallow_of_openNames (h : i.openNames = []) : i.Shallow where
  below := by
    have hsublist := (List.tail_sublist i.expansions).filterMap Expansion.entity
    exact List.sublist_nil.1 (h ▸ hsublist)
  plain x hx hentity := by
    rw [entity_eq_none h hx] at hentity
    cases hentity
  ampersand _ := h

theorem Shallow.hold (h : i.Shallow) (holding : Bool) : (i.hold holding).Shallow :=
  ⟨h.below, h.plain, h.ampersand⟩

/-- Taking a character expands nothing. -/
theorem Shallow.consume (h : i.Shallow) : i.consume.Shallow := by
  refine ⟨?_, ?_, ?_⟩
  · rw [expansions_consume]
    exact h.below
  · rw [expansions_consume]
    exact h.plain
  · rw [pushback_consume]
    intro hampersand
    cases hampersand

/-- The expansions that are left after the finished ones: the first has text left, and those below
it replace no entity. -/
theorem Shallow.dropWhile_cons (h : i.Shallow) {x : Expansion} {xs : List Expansion}
    (hlist : i.expansions.dropWhile (·.rest.isEmpty) = x :: xs) :
    x ∈ i.expansions ∧ (∃ c cs, x.rest = c :: cs) ∧ Markup.openNames xs = [] := by
  have hsuffix := List.dropWhile_suffix (l := i.expansions) (p := (·.rest.isEmpty))
  have hhead := List.head?_dropWhile_not (·.rest.isEmpty) i.expansions
  rw [hlist] at hsuffix hhead
  refine ⟨hsuffix.mem List.mem_cons_self, List.exists_cons_of_ne_nil (by simpa using hhead), ?_⟩
  have hsublist := hsuffix.sublist.tail.filterMap Expansion.entity
  exact List.sublist_nil.1 (h.below ▸ hsublist)

/-- A look drops a finished expansion before it comes to an ampersand below it. -/
theorem Shallow.peek {r : Except ReadFailure (Option Char)} (h : i.Shallow)
    (hheld : i.holding = true → i.openNames = []) (hpeek : i.peek = (r, j)) : j.Shallow := by
  by_cases hholding : i.holding = true
  · have hsublist := openNames_peek hpeek
    rw [hheld hholding] at hsublist
    exact shallow_of_openNames (List.sublist_nil.1 hsublist)
  have hlive : i.liveExpansions = i.expansions.dropWhile (·.rest.isEmpty) := if_neg hholding
  cases hp : i.pushback with
  | some d =>
    rw [peek_of_pushback hp] at hpeek
    cases hpeek
    exact h
  | none =>
    rw [peek_of_no_pushback hp, hlive] at hpeek
    rcases hlist : i.expansions.dropWhile (·.rest.isEmpty) with _ | ⟨x, xs⟩
    · -- everything has been dropped
      rw [hlist] at hpeek
      simp only [takeFirst] at hpeek
      split at hpeek <;>
      · cases hpeek
        exact shallow_of_openNames rfl
    · obtain ⟨hmem, ⟨c, cs, hrest⟩, hbelow⟩ := h.dropWhile_cons hlist
      have hx := h.plain x hmem
      rw [hlist] at hpeek
      simp only [takeFirst, hrest] at hpeek
      rw [hrest] at hx
      cases hpeek
      refine ⟨hbelow, fun y hy hentity hampersand => ?_, fun hc => ?_⟩
      · rcases List.mem_cons.1 hy with rfl | hy
        · exact hx hentity (List.mem_cons_of_mem _ hampersand)
        · rw [entity_eq_none hbelow hy] at hentity
          cases hentity
      · -- an ampersand is not of the text of an entity
        cases hc
        cases hentity : x.entity with
        | none => exact hbelow
        | some name => exact absurd List.mem_cons_self (hx (by rw [hentity]; rfl))

/-- An entity is expanded above everything else. -/
theorem Shallow.pushEntity (hopen : i.openNames = []) (htext : '&' ∉ text.toList)
    (hpush : i.pushEntity name text = .ok j) : j.Shallow := by
  have hcovered : Markup.openNames i.covered = [] := by rw [openNames_covered, hopen]
  rw [eq_of_pushEntity hpush]
  refine ⟨hcovered, fun x hx hentity => ?_, fun hampersand => ?_⟩
  · rcases List.mem_cons.1 hx with rfl | hx
    · exact htext
    · rw [entity_eq_none hcovered hx] at hentity
      cases hentity
  · cases hampersand

end Input

end Markup
