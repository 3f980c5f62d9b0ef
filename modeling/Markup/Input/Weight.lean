import Markup.Input.Basic

/-!
# The weight of an input

Expansions make an input longer than its source, but not without bound. Give a character the
weight `(n + 1) ^ a`, where `n` bounds the length of the replacement texts and `a` is the number of
expansions that may still be opened inside the one the character stands in. Then a replacement text
weighs less than one character outside it, so an expansion is paid for by the reference that asked
for it. Looking at a character never adds weight (`weight_peek_le`), taking it removes the weight
of a character (`weight_consume`), and an expansion adds less than that (`weight_pushEntity_lt`).
-/

namespace Markup

/-- The weight of a character inside which so many expansions may still be opened: `n + 1` to that
power. -/
def characterWeight (n : Nat) : Nat → Nat
  | 0 => 1
  | spare + 1 => characterWeight n spare * n + characterWeight n spare

/-- The weight of the characters left in expansions. -/
def expansionsWeight (n maxDepth : Nat) : List Expansion → Nat
  | [] => 0
  | x :: xs =>
    x.rest.length * characterWeight n (maxDepth - namedDepth (x :: xs)) +
      expansionsWeight n maxDepth xs

/-- Every character weighs something. -/
theorem characterWeight_pos (n spare : Nat) : 0 < characterWeight n spare := by
  induction spare with
  | zero => exact Nat.one_pos
  | succ spare ih => exact Nat.lt_of_lt_of_le ih (Nat.le_add_left _ _)

/-- Less depth to spare is less weight. -/
theorem characterWeight_sub_le (n m : Nat) {d e : Nat} (h : d ≤ e) :
    characterWeight n (m - e) ≤ characterWeight n (m - d) := by
  obtain ⟨k, hk⟩ := Nat.exists_eq_add_of_le (Nat.sub_le_sub_left h m)
  rw [hk]
  clear hk
  induction k with
  | zero => exact Nat.le_refl _
  | succ k ih => exact Nat.le_trans ih (Nat.le_add_left _ _)

/-- An expansion counts if it replaces an entity. -/
theorem namedDepth_cons (x : Expansion) (xs : List Expansion) :
    namedDepth (x :: xs) = namedDepth xs + if x.entity.isSome then 1 else 0 := by
  simp [namedDepth, List.countP_cons]

/-- An expansion more makes the depth no smaller. -/
theorem namedDepth_le_cons (x : Expansion) (xs : List Expansion) :
    namedDepth xs ≤ namedDepth (x :: xs) := by
  rw [namedDepth_cons]; exact Nat.le_add_right _ _

/-- Taking a character off expansions leaves the same entities expanded and takes its weight
away. -/
theorem takeFirst_weight (n m : Nat) {xs ys : List Expansion} {c : Char}
    (h : takeFirst xs = some (c, ys)) :
    namedDepth ys = namedDepth xs ∧
      expansionsWeight n m ys + characterWeight n (m - namedDepth ys) ≤
        expansionsWeight n m xs := by
  induction xs generalizing ys with
  | nil => simp [takeFirst] at h
  | cons x xs ih =>
    simp only [takeFirst] at h
    split at h
    · rename_i d rest hrest
      simp only [Option.some.injEq, Prod.mk.injEq] at h
      obtain ⟨rfl, rfl⟩ := h
      refine ⟨by simp [namedDepth_cons], ?_⟩
      simp only [expansionsWeight, namedDepth_cons, hrest, List.length_cons, Nat.succ_mul]
      omega
    · rename_i hrest
      rw [Option.map_eq_some_iff] at h
      obtain ⟨⟨d, zs⟩, hz, heq⟩ := h
      simp only [Prod.mk.injEq] at heq
      obtain ⟨rfl, rfl⟩ := heq
      obtain ⟨hdepth, hweight⟩ := ih hz
      refine ⟨by simp [namedDepth_cons, hdepth], ?_⟩
      have := characterWeight_sub_le n m (namedDepth_le_cons x zs)
      simp only [expansionsWeight, hrest, List.length_nil, Nat.zero_mul, Nat.zero_add]
      omega

/-- Dropping expansions that have been read to their end takes no weight away. -/
theorem expansionsWeight_dropWhile (n m : Nat) (xs : List Expansion) :
    expansionsWeight n m (xs.dropWhile (·.rest.isEmpty)) = expansionsWeight n m xs := by
  induction xs with
  | nil => rfl
  | cons x xs ih =>
    simp only [List.dropWhile_cons]
    split
    · rename_i hx
      rw [ih, expansionsWeight, List.isEmpty_iff.1 hx]
      simp
    · rfl

namespace Input

/-- The weight of a character that is taken next. -/
def unitWeight (n : Nat) (i : Input) : Nat :=
  characterWeight n (i.maxDepth - i.depth)

/-- The weight of all characters to come. -/
def weight (n : Nat) (i : Input) : Nat :=
  (if i.pushback.isSome then i.unitWeight n else 0) + expansionsWeight n i.maxDepth i.expansions +
    i.source.length * characterWeight n i.maxDepth

/-- A character of the source weighs something. -/
theorem unitWeight_pos (n : Nat) (i : Input) : 0 < i.unitWeight n :=
  characterWeight_pos n _

@[simp] theorem weight_hold (n : Nat) (i : Input) (b : Bool) : (i.hold b).weight n = i.weight n :=
  rfl

@[simp] theorem unitWeight_hold (n : Nat) (i : Input) (b : Bool) :
    (i.hold b).unitWeight n = i.unitWeight n :=
  rfl

/-- Finished expansions weigh nothing. -/
theorem expansionsWeight_live (n : Nat) (i : Input) :
    expansionsWeight n i.maxDepth i.liveExpansions =
      expansionsWeight n i.maxDepth i.expansions := by
  unfold liveExpansions
  split
  · rfl
  · exact expansionsWeight_dropWhile _ _ _

/-- A held input keeps all expansions. -/
theorem liveExpansions_of_holding {i : Input} (h : i.holding = true) :
    i.liveExpansions = i.expansions := by
  simp [liveExpansions, h]

/-- Looking at the next character puts it back. -/
theorem pushback_of_peek {i j : Input} {c : Char} (h : i.peek = (.ok (some c), j)) :
    j.pushback = some c := by
  unfold peek at h
  split at h
  · rename_i d k _
    simp only [Prod.mk.injEq, Except.ok.injEq, Option.some.injEq] at h
    rw [← h.2, unread]
    split <;> simp [h.1]
  · rename_i hne
    exact absurd h (hne c j)

/-- A look at the input adds no weight, and drops no expansion that is held. -/
theorem peek_cases {i j : Input} {r : Except ReadFailure (Option Char)} (h : i.peek = (r, j))
    (n : Nat) :
    j.weight n ≤ i.weight n ∧ (i.holding = true → j.unitWeight n = i.unitWeight n) := by
  cases hp : i.pushback with
  | some c =>
    rw [peek_of_pushback hp, Prod.mk.injEq] at h
    rw [← h.2]
    exact ⟨Nat.le_refl _, fun _ => rfl⟩
  | none =>
    have hlive := expansionsWeight_live n i
    have hheld := liveExpansions_of_holding (i := i)
    rw [peek_of_no_pushback hp] at h
    cases ht : takeFirst i.liveExpansions with
    | some p =>
      obtain ⟨c, ys⟩ := p
      obtain ⟨hdepth, hweight⟩ := takeFirst_weight n i.maxDepth ht
      simp only [ht, Prod.mk.injEq] at h
      rw [← h.2]
      constructor
      · simp only [weight, unitWeight, depth, hp, Option.isSome_some, Option.isSome_none, if_true,
          Bool.false_eq_true, if_false]
        omega
      · intro hi
        simp only [unitWeight, depth, hdepth, hheld hi]
    | none =>
      simp only [ht] at h
      cases hs : i.source with
      | nil =>
        simp only [hs, Prod.mk.injEq] at h
        rw [← h.2]
        refine ⟨?_, fun hi => by simp only [unitWeight, depth, hheld hi]⟩
        simp [weight, hp, hs, hlive]
      | cons item source =>
        cases item with
        | error failure =>
          simp only [hs, Prod.mk.injEq] at h
          rw [← h.2]
          refine ⟨?_, fun hi => by simp only [unitWeight, depth, hheld hi]⟩
          simp only [weight, hp, hs, hlive, List.length_cons, Nat.succ_mul, Option.isSome_none,
            Bool.false_eq_true, if_false]
          omega
        | ok c =>
          simp only [hs, Prod.mk.injEq] at h
          rw [← h.2]
          refine ⟨?_, fun hi => by simp only [unitWeight, depth, hheld hi]⟩
          have hpow :=
            characterWeight_sub_le n i.maxDepth (Nat.zero_le (namedDepth i.liveExpansions))
          simp only [weight, unitWeight, depth, hp, hs, hlive, List.length_cons, Nat.succ_mul,
            Option.isSome_some, Option.isSome_none, if_true, Bool.false_eq_true, if_false,
            Nat.sub_zero] at hpow ⊢
          omega

/-- Looking at the next character adds no weight. -/
theorem weight_peek_le {i j : Input} {r : Except ReadFailure (Option Char)} (h : i.peek = (r, j))
    (n : Nat) : j.weight n ≤ i.weight n :=
  (peek_cases h n).1

/-- Looking at the next character of a held input drops no expansion. -/
theorem unitWeight_peek {i j : Input} {r : Except ReadFailure (Option Char)} (h : i.peek = (r, j))
    (hi : i.holding = true) (n : Nat) : j.unitWeight n = i.unitWeight n :=
  (peek_cases h n).2 hi

/-- Taking a character does not change what the next one may weigh. -/
@[simp] theorem unitWeight_consume (n : Nat) (i : Input) :
    i.consume.unitWeight n = i.unitWeight n := by
  simp only [consume, countLine, unitWeight, depth]
  split <;> rfl

/-- Taking the character that was put back takes its weight away. -/
theorem weight_consume {i : Input} {c : Char} (h : i.pushback = some c) (n : Nat) :
    i.consume.weight n + i.unitWeight n = i.weight n := by
  simp only [consume, countLine, weight, unitWeight, depth, h]
  split <;> simp <;> omega

/-- An expansion weighs less than the character that was taken for it. -/
theorem weight_pushEntity_lt {i j : Input} {name text : String}
    (h : i.pushEntity name text = .ok j) {n : Nat} (hn : text.length ≤ n) :
    j.weight n < i.weight n + i.unitWeight n := by
  unfold pushEntity at h
  split at h
  · cases h
  · split at h
    · cases h
    · rename_i hdepth
      have hlt : namedDepth i.expansions < i.maxDepth := by simpa [depth] using hdepth
      have hexp : i.maxDepth - namedDepth i.expansions =
          (i.maxDepth - (namedDepth i.expansions + 1)) + 1 := by omega
      have hpos := characterWeight_pos n (i.maxDepth - (namedDepth i.expansions + 1))
      have hle : text.length * characterWeight n (i.maxDepth - (namedDepth i.expansions + 1)) ≤
          n * characterWeight n (i.maxDepth - (namedDepth i.expansions + 1)) :=
        Nat.mul_le_mul_right _ hn
      simp only [Except.ok.injEq] at h
      subst h
      cases hp : i.pushback with
      | none =>
        simp only [weight, unitWeight, depth, hp, expansionsWeight, namedDepth_cons, hexp,
          characterWeight]
        simp only [String.length_toList, Option.isSome_some, Option.isSome_none, if_true,
          Bool.false_eq_true, if_false]
        rw [Nat.mul_comm _ n]
        omega
      | some c =>
        simp only [weight, unitWeight, depth, hp, expansionsWeight, namedDepth_cons, hexp,
          characterWeight]
        simp only [String.length_toList, Option.isSome_some, Option.isSome_none, if_true,
          Bool.false_eq_true, if_false, Nat.add_zero, hexp, characterWeight,
          List.length_cons, List.length_nil, Nat.zero_add, Nat.one_mul]
        rw [Nat.mul_comm _ n]
        omega

end Input

end Markup
