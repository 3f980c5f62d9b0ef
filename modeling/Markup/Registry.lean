/-!
# Registries

A registry holds at most one item for each key, in ascending order of the keys, so two registries
with the same items are equal however they were filled. Names, attributes, elements and entities
are all kept in registries. The look-up lemmas `find?_insert` and `find?_erase` say what each
operation does to every key, and `ext_find?` that nothing else distinguishes two registries.
-/

namespace Markup

/-- Items that carry the key they are found by. -/
class Keyed (α : Type) where
  /-- The key of an item. -/
  key : α → String

/-- Items with distinct keys in ascending order of the keys. -/
structure Registry (α : Type) [Keyed α] where
  /-- The items in order. -/
  items : List α
  /-- The keys ascend strictly. -/
  sorted : items.Pairwise (Keyed.key · < Keyed.key ·)

namespace Registry

variable {α : Type} [Keyed α]

/-- Registries with the same items are the same. -/
@[ext] theorem ext {r s : Registry α} (h : r.items = s.items) : r = s := by
  cases r; cases s; cases h; rfl

instance [DecidableEq α] : DecidableEq (Registry α) := fun r s =>
  if h : r.items = s.items then isTrue (Registry.ext h)
  else isFalse fun e => h (congrArg items e)

/-- The registry without items. -/
def empty : Registry α := ⟨[], .nil⟩

instance : EmptyCollection (Registry α) := ⟨empty⟩

instance : Inhabited (Registry α) := ⟨empty⟩

/-! ## Insertion -/

/-- Puts an item in its place, instead of the item with its key if there is one. -/
def insertInto (x : α) : List α → List α
  | [] => [x]
  | y :: ys =>
    if Keyed.key x < Keyed.key y then x :: y :: ys
    else if Keyed.key y < Keyed.key x then y :: insertInto x ys
    else x :: ys

/-- Nothing but the new item comes into a list. -/
theorem mem_insertInto {x z : α} {ys : List α} (h : z ∈ insertInto x ys) : z = x ∨ z ∈ ys := by
  induction ys with
  | nil => simpa [insertInto] using h
  | cons y ys ih =>
    simp only [insertInto] at h
    split at h
    · simpa using h
    · split at h
      · rcases List.mem_cons.1 h with rfl | h
        · simp
        · rcases ih h with rfl | h <;> simp [*]
      · rcases List.mem_cons.1 h with rfl | h <;> simp [*]

/-- Keys neither of which is below the other are equal. -/
theorem key_eq_of_not_lt {k l : String} (h : ¬k < l) (h' : ¬l < k) : k = l :=
  String.le_antisymm (String.not_lt.1 h') (String.not_lt.1 h)

/-- Inserting keeps a list in the order of its keys. -/
theorem sorted_insertInto {x : α} {ys : List α}
    (h : ys.Pairwise (Keyed.key · < Keyed.key ·)) :
    (insertInto x ys).Pairwise (Keyed.key · < Keyed.key ·) := by
  induction ys with
  | nil => simp [insertInto]
  | cons y ys ih =>
    obtain ⟨hy, hys⟩ := List.pairwise_cons.1 h
    simp only [insertInto]
    split
    · rename_i hxy
      refine List.pairwise_cons.2 ⟨fun z hz => ?_, h⟩
      rcases List.mem_cons.1 hz with rfl | hz
      · exact hxy
      · exact String.lt_trans hxy (hy z hz)
    · rename_i hxy
      split
      · rename_i hyx
        refine List.pairwise_cons.2 ⟨fun z hz => ?_, ih hys⟩
        rcases mem_insertInto hz with rfl | hz
        · exact hyx
        · exact hy z hz
      · rename_i hyx
        refine List.pairwise_cons.2 ⟨fun z hz => ?_, hys⟩
        rw [key_eq_of_not_lt hxy hyx]
        exact hy z hz

/-- The registry with an item added, instead of the item with its key if there is one. -/
def insert (r : Registry α) (x : α) : Registry α :=
  ⟨insertInto x r.items, sorted_insertInto r.sorted⟩

/-- The registry of the items of a list, the last one with a key winning. -/
def ofList (xs : List α) : Registry α :=
  xs.foldl insert empty

/-- The registry with all items of a list added in turn. -/
def insertMany (r : Registry α) (xs : List α) : Registry α :=
  xs.foldl insert r

/-! ## Look-up and removal -/

/-- The item with a key. -/
def find? (r : Registry α) (key : String) : Option α :=
  r.items.find? (Keyed.key · == key)

/-- Whether there is an item with a key. -/
def contains (r : Registry α) (key : String) : Bool :=
  (r.find? key).isSome

/-- The registry without the item with a key. -/
def erase (r : Registry α) (key : String) : Registry α :=
  ⟨r.items.filter (Keyed.key · != key), r.sorted.filter _⟩

/-- The number of items. -/
def size (r : Registry α) : Nat :=
  r.items.length

/-- The keys in ascending order. -/
def keys (r : Registry α) : List String :=
  r.items.map Keyed.key

@[simp] theorem items_empty : (empty : Registry α).items = [] := rfl

/-- What is found is an item, and has the key. -/
theorem find?_eq_some {r : Registry α} {key : String} {x : α} (h : r.find? key = some x) :
    x ∈ r.items ∧ Keyed.key x = key :=
  ⟨List.mem_of_find?_eq_some h, by simpa using List.find?_some h⟩

/-- After inserting, the new item is found by its key, and others as before. -/
theorem find?_insertInto (x : α) (ys : List α) (key : String) :
    (insertInto x ys).find? (Keyed.key · == key) =
      if Keyed.key x = key then some x else ys.find? (Keyed.key · == key) := by
  induction ys with
  | nil => simp [insertInto, List.find?_cons]; split <;> simp_all
  | cons y ys ih =>
    simp only [insertInto]
    split
    · simp [List.find?_cons]; split <;> simp_all
    · rename_i hxy
      split
      · rename_i hyx
        have hne : Keyed.key x ≠ Keyed.key y := fun e => by
          rw [e] at hyx; exact String.lt_irrefl _ hyx
        by_cases hx : Keyed.key x = key
        · have : Keyed.key y ≠ key := fun e => hne (hx.trans e.symm)
          simp [ih, hx, this]
        · simp [List.find?_cons, ih, hx]
      · rename_i hyx
        have heq := key_eq_of_not_lt hxy hyx
        by_cases hx : Keyed.key x = key
        · simp [hx]
        · have : Keyed.key y ≠ key := fun e => hx (heq.trans e)
          simp [hx, this]

/-- An insertion shows at its own key only. -/
theorem find?_insert (r : Registry α) (x : α) (key : String) :
    (r.insert x).find? key = if Keyed.key x = key then some x else r.find? key :=
  find?_insertInto x r.items key

@[simp] theorem find?_empty (key : String) : (empty : Registry α).find? key = none := rfl

/-- A removal shows at its own key only. -/
theorem find?_erase (r : Registry α) (k key : String) :
    (r.erase k).find? key = if k = key then none else r.find? key := by
  simp only [erase, find?, List.find?_filter]
  split
  · subst k
    simp
  · congr 1
    funext x
    by_cases hx : Keyed.key x = key
    · subst key; simp [Ne.symm ‹_›]
    · simp [hx]

/-- Distinct items of a registry have distinct keys. -/
theorem find?_of_mem {r : Registry α} {x : α} (h : x ∈ r.items) :
    r.find? (Keyed.key x) = some x := by
  obtain ⟨items, sorted⟩ := r
  simp only [find?] at *
  induction items with
  | nil => cases h
  | cons y ys ih =>
    obtain ⟨hy, hys⟩ := List.pairwise_cons.1 sorted
    rcases List.mem_cons.1 h with rfl | h
    · simp
    · have hne : Keyed.key y ≠ Keyed.key x := fun e => by
        have := hy x h; rw [e] at this; exact String.lt_irrefl _ this
      simp [hne, ih hys h]

/-- The first item is found by its own key. -/
private theorem find?_head {x : α} {xs : List α} :
    (x :: xs).find? (Keyed.key · == Keyed.key x) = some x := by
  simp

/-- What is found under each key determines a registry. -/
theorem ext_find? {r s : Registry α} (h : ∀ key, r.find? key = s.find? key) : r = s := by
  obtain ⟨xs, hxs⟩ := r
  obtain ⟨ys, hys⟩ := s
  ext1
  simp only [find?] at h ⊢
  induction xs generalizing ys with
  | nil =>
    cases ys with
    | nil => rfl
    | cons y ys => simpa using h (Keyed.key y)
  | cons x xs ih =>
    cases ys with
    | nil => simpa using h (Keyed.key x)
    | cons y ys =>
      obtain ⟨hx, hxsTail⟩ := List.pairwise_cons.1 hxs
      obtain ⟨hy, hysTail⟩ := List.pairwise_cons.1 hys
      have hxy : x ∈ y :: ys := List.mem_of_find?_eq_some ((h _).symm.trans find?_head)
      have hyx : y ∈ x :: xs := List.mem_of_find?_eq_some ((h _).trans find?_head)
      have heq : x = y := by
        rcases List.mem_cons.1 hxy with e | hxy
        · exact e
        · rcases List.mem_cons.1 hyx with e | hyx
          · exact e.symm
          · exact absurd (String.lt_trans (hx y hyx) (hy x hxy)) (String.lt_irrefl _)
      subst heq
      refine congrArg _ (ih hxsTail ys hysTail fun key => ?_)
      by_cases hk : Keyed.key x = key
      · have none_above {zs : List α} (hz : ∀ z ∈ zs, Keyed.key x < Keyed.key z) :
            zs.find? (Keyed.key · == key) = none := by
          refine List.find?_eq_none.2 fun z hzs => ?_
          have := hz z hzs
          simp only [beq_iff_eq]
          intro e
          rw [hk, e] at this
          exact String.lt_irrefl _ this
        rw [none_above hx, none_above hy]
      · simpa [hk] using h key

/-- The items are what is found by their own keys. -/
theorem mem_items_iff {r : Registry α} {x : α} :
    x ∈ r.items ↔ r.find? (Keyed.key x) = some x :=
  ⟨find?_of_mem, fun h => (find?_eq_some h).1⟩

/-- Registries with the same items are equal. -/
theorem ext_items {r s : Registry α} (h : ∀ x, x ∈ r.items ↔ x ∈ s.items) : r = s := by
  refine ext_find? fun key => Option.ext fun x => ?_
  constructor
  · intro hx
    obtain ⟨hmem, rfl⟩ := find?_eq_some hx
    exact mem_items_iff.1 ((h x).1 hmem)
  · intro hx
    obtain ⟨hmem, rfl⟩ := find?_eq_some hx
    exact mem_items_iff.1 ((h x).2 hmem)

/-- An insertion adds its item and takes away the one with its key. -/
theorem mem_items_insert {r : Registry α} {x y : α} :
    y ∈ (r.insert x).items ↔ x = y ∨ y ∈ r.items ∧ Keyed.key x ≠ Keyed.key y := by
  rw [mem_items_iff, find?_insert, mem_items_iff]
  by_cases h : Keyed.key x = Keyed.key y
  · simp [h]
  · have hne : x ≠ y := fun hxy => h (congrArg _ hxy)
    simp [h, hne]

end Registry

end Markup
