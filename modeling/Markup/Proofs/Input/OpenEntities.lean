import Markup.Proofs.Input.Upcoming

/-!
# The entities that are being expanded

`openNames` lists the entities that a stack of expansions replaces. Taking a character leaves the
list alone, looking at the next one can only drop names from it (`openNames_peek`), and none while
the input is held. An entity is expanded exactly if its name is not in the list and the list is
shorter than the limit (`pushEntity_ok`, `exists_pushEntity`), so the names stay distinct and within
the limit whatever is read (`Input.Nests`).
-/

namespace Markup

/-- The names of the entities that a stack of expansions replaces, innermost first. -/
def openNames (expansions : List Expansion) : List String :=
  expansions.filterMap Expansion.entity

/-- The depth counts the names. -/
theorem length_openNames (xs : List Expansion) : (openNames xs).length = namedDepth xs := by
  induction xs with
  | nil => rfl
  | cons x xs ih =>
    rw [namedDepth, List.countP_cons, ← namedDepth, ← ih]
    cases hx : x.entity <;> simp [openNames, hx]

/-- Taking a character leaves the same expansions, one of them with less text. -/
theorem entities_of_takeFirst {xs ys : List Expansion} {c : Char}
    (h : takeFirst xs = some (c, ys)) : ys.map Expansion.entity = xs.map Expansion.entity := by
  induction xs generalizing ys with
  | nil => cases h
  | cons x xs ih =>
    simp only [takeFirst] at h
    split at h
    · simp only [Option.some.injEq, Prod.mk.injEq] at h
      rw [← h.2]
      rfl
    · obtain ⟨⟨d, zs⟩, hz, heq⟩ := Option.map_eq_some_iff.1 h
      simp only [Prod.mk.injEq] at heq
      obtain ⟨rfl, rfl⟩ := heq
      rw [List.map_cons, List.map_cons, ih hz]

/-- The names depend on nothing but the entities. -/
theorem openNames_of_entities {xs ys : List Expansion}
    (h : ys.map Expansion.entity = xs.map Expansion.entity) : openNames ys = openNames xs := by
  have hmap (zs : List Expansion) : openNames zs = (zs.map Expansion.entity).filterMap id := by
    rw [List.filterMap_map]
    rfl
  rw [hmap, hmap, h]

/-- The names of two lists of expansions follow one another. -/
theorem openNames_append (xs ys : List Expansion) :
    openNames (xs ++ ys) = openNames xs ++ openNames ys :=
  List.filterMap_append

namespace Input

/-- The names of the entities that are being expanded, innermost first. -/
def openNames (i : Input) : List String :=
  Markup.openNames i.expansions

variable {i j : Input} {r : Except ReadFailure (Option Char)} {name text : String}

/-- The depth of an input counts its open names. -/
theorem length_openNames (i : Input) : i.openNames.length = i.depth :=
  Markup.length_openNames i.expansions

@[simp] theorem openNames_hold (holding : Bool) : (i.hold holding).openNames = i.openNames := rfl

@[simp] theorem maxDepth_hold (holding : Bool) : (i.hold holding).maxDepth = i.maxDepth := rfl

/-- Taking a character that was looked at leaves the source. -/
@[simp] theorem source_consume : i.consume.source = i.source := by
  unfold consume countLine
  split <;> rfl

@[simp] theorem expansions_consume : i.consume.expansions = i.expansions := by
  unfold consume countLine
  split <;> rfl

/-- After a character has been taken none is put back. -/
@[simp] theorem pushback_consume (i : Input) : i.consume.pushback = none := by
  unfold consume countLine
  split <;> rfl

@[simp] theorem openNames_consume : i.consume.openNames = i.openNames :=
  congrArg Markup.openNames expansions_consume

@[simp] theorem maxDepth_consume : i.consume.maxDepth = i.maxDepth := by
  unfold consume countLine
  split <;> rfl

/-! ## Looking at the next character -/

/-- A look drops the expansions that have been read to their end, unless a character was put back
before it. -/
theorem openNames_of_peek (h : i.peek = (r, j)) :
    j.openNames =
      if i.pushback.isSome then i.openNames else Markup.openNames i.liveExpansions := by
  cases hp : i.pushback with
  | some c =>
    rw [peek_of_pushback hp] at h
    cases h
    rfl
  | none =>
    rw [peek_of_no_pushback hp] at h
    cases ht : takeFirst i.liveExpansions with
    | some p =>
      simp only [ht] at h
      cases h
      exact openNames_of_entities (entities_of_takeFirst ht)
    | none =>
      simp only [ht] at h
      cases hs : i.source with
      | nil =>
        simp only [hs] at h
        cases h
        rfl
      | cons item source =>
        cases item <;>
        · simp only [hs] at h
          cases h
          rfl

/-- A look leaves the limit. -/
theorem maxDepth_of_peek (h : i.peek = (r, j)) : j.maxDepth = i.maxDepth := by
  cases hp : i.pushback with
  | some c =>
    rw [peek_of_pushback hp] at h
    cases h
    rfl
  | none =>
    rw [peek_of_no_pushback hp] at h
    split at h
    · cases h
      rfl
    · split at h <;>
      · cases h
        rfl

/-- A look drops names, if it changes them at all. -/
theorem openNames_peek (h : i.peek = (r, j)) : j.openNames.Sublist i.openNames := by
  rw [openNames_of_peek h]
  split
  · exact List.Sublist.refl _
  · unfold liveExpansions
    split
    · exact List.Sublist.refl _
    · exact (List.dropWhile_sublist _).filterMap _

/-- A look at a held input leaves the same expansions. -/
theorem entities_peek_of_holding (h : i.peek = (r, j)) (hi : i.holding = true) :
    j.expansions.map Expansion.entity = i.expansions.map Expansion.entity := by
  have hlive : i.liveExpansions = i.expansions := if_pos hi
  cases hp : i.pushback with
  | some c =>
    rw [peek_of_pushback hp] at h
    cases h
    rfl
  | none =>
    rw [peek_of_no_pushback hp, hlive] at h
    split at h
    · rename_i ht
      cases h
      exact entities_of_takeFirst ht
    · split at h <;>
      · cases h
        rfl

/-! ## Expanding an entity -/

/-- The expansions of an input with the character that is put back among them. -/
def covered (i : Input) : List Expansion :=
  i.pushback.toList.map (fun c => ⟨none, [c]⟩) ++ i.expansions

/-- The covered expansions have all the open names. -/
@[simp] theorem openNames_covered (i : Input) : Markup.openNames i.covered = i.openNames := by
  unfold covered
  cases i.pushback <;> rfl

/-- An expansion covers the character that is put back and changes nothing else. -/
theorem eq_of_pushEntity (h : i.pushEntity name text = .ok j) :
    j = { i with pushback := none, expansions := ⟨some name, text.toList⟩ :: i.covered } := by
  unfold pushEntity at h
  split at h
  · cases h
  · split at h
    · cases h
    · rw [← Except.ok.inj h]
      unfold covered
      cases i.pushback <;> rfl

/-- An entity is being expanded if an expansion replaces it. -/
theorem any_entity_iff :
    i.expansions.any (·.entity == some name) = true ↔ name ∈ i.openNames := by
  rw [List.any_eq_true, openNames, Markup.openNames, List.mem_filterMap]
  simp only [beq_iff_eq]

/-- What it takes for an entity to be expanded, and what the expansion does. -/
theorem pushEntity_ok (h : i.pushEntity name text = .ok j) :
    name ∉ i.openNames ∧ i.depth < i.maxDepth ∧ j.openNames = name :: i.openNames ∧
      j.maxDepth = i.maxDepth := by
  have hj := eq_of_pushEntity h
  unfold pushEntity at h
  split at h
  · cases h
  · rename_i hany
    split at h
    · cases h
    · rename_i hdepth
      refine ⟨fun hmem => hany (any_entity_iff.2 hmem), Nat.lt_of_not_le hdepth, ?_, by rw [hj]⟩
      rw [hj]
      exact congrArg (name :: ·) i.openNames_covered

/-- An entity that is not being expanded is expanded, where there is depth to spare. -/
theorem exists_pushEntity (text : String) (hname : name ∉ i.openNames)
    (hdepth : i.depth < i.maxDepth) : ∃ j, i.pushEntity name text = .ok j := by
  rw [pushEntity, if_neg (mt any_entity_iff.1 hname), if_neg (Nat.not_le.2 hdepth)]
  exact ⟨_, rfl⟩

/-- An entity is refused while it is being expanded. -/
theorem pushEntity_recursive (text : String) (h : name ∈ i.openNames) :
    i.pushEntity name text = .error .recursive :=
  if_pos (any_entity_iff.2 h)

/-- Any other entity is refused where the limit has been reached. -/
theorem pushEntity_tooDeep (text : String) (hname : name ∉ i.openNames)
    (h : i.maxDepth ≤ i.depth) : i.pushEntity name text = .error (.tooDeep i.maxDepth) :=
  (if_neg (mt any_entity_iff.1 hname)).trans (if_pos h)

/-- An entity is refused where it is being expanded already or the limit has been reached. -/
theorem refused_of_pushEntity {refusal : Refusal} (h : i.pushEntity name text = .error refusal) :
    name ∈ i.openNames ∨ i.maxDepth ≤ i.depth := by
  by_cases hname : name ∈ i.openNames
  · exact .inl hname
  · refine .inr (Nat.le_of_not_lt fun hdepth => ?_)
    obtain ⟨j, hj⟩ := exists_pushEntity text hname hdepth
    rw [hj] at h
    cases h

/-! ## Nesting -/

/-- Entities are expanded inside each other within a limit, and none inside itself. -/
structure Nests (limit : Nat) (i : Input) : Prop where
  /-- The limit is that of the input. -/
  maxDepth_eq : i.maxDepth = limit
  /-- No entity is expanded twice at a time. -/
  nodup : i.openNames.Nodup
  /-- No more are expanded than the limit says. -/
  length_le : i.openNames.length ≤ limit

variable {limit : Nat}

/-- In a new input nothing is open. -/
theorem nests_ofSource (source : Source) (maxDepth : Nat) :
    (ofSource source maxDepth).Nests maxDepth :=
  ⟨rfl, List.nodup_nil, Nat.zero_le _⟩

/-- Holding expansions opens none. -/
theorem Nests.hold (h : i.Nests limit) (holding : Bool) : (i.hold holding).Nests limit :=
  ⟨h.maxDepth_eq, h.nodup, h.length_le⟩

/-- Taking a character opens no entity. -/
theorem Nests.consume (h : i.Nests limit) : i.consume.Nests limit := by
  refine ⟨?_, ?_, ?_⟩
  · rw [maxDepth_consume, h.maxDepth_eq]
  · rw [openNames_consume]
    exact h.nodup
  · rw [openNames_consume]
    exact h.length_le

/-- A look opens no entity. -/
theorem Nests.peek (h : i.Nests limit) (hpeek : i.peek = (r, j)) : j.Nests limit := by
  have hsub := openNames_peek hpeek
  exact ⟨(maxDepth_of_peek hpeek).trans h.maxDepth_eq, hsub.nodup h.nodup,
    Nat.le_trans hsub.length_le h.length_le⟩

/-- An entity is opened under another name than those open, and below the limit. -/
theorem Nests.pushEntity (h : i.Nests limit) (hpush : i.pushEntity name text = .ok j) :
    j.Nests limit := by
  obtain ⟨hname, hdepth, hnames, hmax⟩ := pushEntity_ok hpush
  rw [← length_openNames, h.maxDepth_eq] at hdepth
  refine ⟨hmax.trans h.maxDepth_eq, ?_, ?_⟩
  · rw [hnames]
    exact List.nodup_cons.2 ⟨hname, h.nodup⟩
  · rw [hnames]
    exact hdepth

end Input

end Markup
