import Markup.Proofs.Input.OpenEntities

/-!
# Inputs without their next characters

`Input.skip n` leaves out the next `n` characters of an input, which may stand in expansions and in
the source. Reading them leads to the same but for expansions that have been read to their end
(`gives_skip`): those are dropped by the next look, as long as the input is not held, so it makes no
difference whether they are still there (`Level`).
-/

namespace Markup

/-- Expansions without the first `n` characters of their text. -/
def skipText : Nat → List Expansion → List Expansion
  | _, [] => []
  | n, x :: xs => { x with rest := x.rest.drop n } :: skipText (n - x.rest.length) xs

theorem skipText_zero (xs : List Expansion) : skipText 0 xs = xs := by
  induction xs with
  | nil => rfl
  | cons x xs ih => rw [skipText, List.drop_zero, Nat.zero_sub, ih]

/-- Nothing is left out where nothing is left. -/
theorem skipText_of_expansionsText {xs : List Expansion} (h : expansionsText xs = []) (n : Nat) :
    skipText n xs = xs := by
  induction xs generalizing n with
  | nil => rfl
  | cons x xs ih =>
    rw [expansionsText, List.flatMap_cons, List.append_eq_nil_iff] at h
    rw [skipText, ih h.2, h.1, List.drop_nil]
    simp [← h.1]

/-- Skipping drops characters of the text of the expansions. -/
theorem expansionsText_skipText (xs : List Expansion) (n : Nat) :
    expansionsText (skipText n xs) = (expansionsText xs).drop n := by
  induction xs generalizing n with
  | nil => exact List.drop_nil.symm
  | cons x xs ih =>
    have hrest := ih (n - x.rest.length)
    simp only [expansionsText, skipText, List.flatMap_cons] at hrest ⊢
    rw [hrest, List.drop_append]

/-- The first character is the first one to be left out. -/
theorem dropWhile_skipText {xs ys : List Expansion} {c : Char}
    (h : takeFirst (xs.dropWhile (·.rest.isEmpty)) = some (c, ys)) (n : Nat) :
    (skipText (n + 1) xs).dropWhile (·.rest.isEmpty) =
      (skipText n ys).dropWhile (·.rest.isEmpty) := by
  induction xs with
  | nil => cases h
  | cons x xs ih =>
    cases hrest : x.rest with
    | nil =>
      rw [List.dropWhile_cons, hrest] at h
      rw [skipText, hrest, List.drop_nil, List.dropWhile_cons]
      exact ih h
    | cons d rest =>
      rw [List.dropWhile_cons, hrest] at h
      simp only [List.isEmpty_cons, Bool.false_eq_true, if_false, takeFirst, hrest,
        Option.some.injEq, Prod.mk.injEq] at h
      obtain ⟨-, rfl⟩ := h
      rw [skipText, skipText, hrest]
      simp

/-- One character less is left with every one that is left out. -/
theorem length_expansionsText_of_takeFirst {xs ys : List Expansion} {c : Char}
    (h : takeFirst (xs.dropWhile (·.rest.isEmpty)) = some (c, ys)) :
    (expansionsText xs).length = (expansionsText ys).length + 1 := by
  have htext := expansionsText_of_takeFirst h
  rw [expansionsText_dropWhile] at htext
  rw [htext, List.length_cons]

namespace Input

/-- The input without its next `n` characters, when nothing is put back. -/
def skip (i : Input) (n : Nat) : Input :=
  { i with
    expansions := skipText n i.expansions
    source := i.source.drop (n - (expansionsText i.expansions).length) }

/-- What comes is the rest of what would have come. -/
theorem upcoming_skip {i : Input} (hpushback : i.pushback = none) (n : Nat) :
    (i.skip n).upcoming = i.upcoming.drop n := by
  have hupcoming (j : Input) (hj : j.pushback = none) :
      j.upcoming = (expansionsText j.expansions).map .ok ++ j.source := by
    rw [upcoming, hj]
    rfl
  rw [hupcoming i hpushback, hupcoming (i.skip n) hpushback, List.drop_append, List.length_map,
    ← List.map_drop]
  simp only [skip, expansionsText_skipText]

/-- Nothing is put back in either of two inputs, and they have the same to give, but for expansions
that have been read to their end. -/
structure Level (i k : Input) : Prop where
  /-- Nothing is put back in the first. -/
  pushback : i.pushback = none
  /-- Nothing is put back in the second. -/
  pushback' : k.pushback = none
  /-- The same expansions have text left. -/
  expansions : i.expansions.dropWhile (·.rest.isEmpty) = k.expansions.dropWhile (·.rest.isEmpty)
  /-- The same reads are left of the sources. -/
  source : i.source = k.source
  /-- Entities nest within the same limit. -/
  maxDepth : i.maxDepth = k.maxDepth

/-- Looks that do not hold the input find these characters, each after the one before it has been
taken, and what is left then is level with `k`. -/
def Gives (k : Input) : List Char → Input → Prop
  | [], i => i.Level k
  | c :: cs, i => ∃ j, (i.hold false).peek = (.ok (some c), j) ∧ Gives k cs j.consume

variable {i k : Input} {c : Char} {cs : List Char}

/-- A look leaves the character to be taken. -/
theorem Gives.look (h : k.Gives (c :: cs) i) :
    ∃ j, (i.hold false).peek = (.ok (some c), j) ∧ k.Gives (c :: cs) j ∧ k.Gives cs j.consume := by
  obtain ⟨j, hpeek, hrest⟩ := h
  exact ⟨j, hpeek, ⟨j, peek_hold_of_peek hpeek, hrest⟩, hrest⟩

/-- What is given before one input is given before any that is level with it. -/
theorem Gives.of_level {k' : Input} (h : k.Gives cs i) (hk : k.Level k') : k'.Gives cs i := by
  induction cs generalizing i with
  | nil =>
    exact ⟨h.pushback, hk.pushback', h.expansions.trans hk.expansions, h.source.trans hk.source,
      h.maxDepth.trans hk.maxDepth⟩
  | cons c cs ih =>
    obtain ⟨j, hpeek, hrest⟩ := h
    exact ⟨j, hpeek, ih hrest⟩

/-- After a character has been taken one character less is to be left out. -/
theorem level_skip {j : Input} {rest : Source} (hpushback : i.pushback = none)
    (hup : i.upcoming = .ok c :: rest) (hpeek : (i.hold false).peek = (.ok (some c), j)) (n : Nat) :
    (j.consume.skip n).Level (i.skip (n + 1)) := by
  rw [peek_of_no_pushback (i := i.hold false) hpushback] at hpeek
  have hlive : (i.hold false).liveExpansions = i.expansions.dropWhile (·.rest.isEmpty) := rfl
  cases htake : takeFirst (i.expansions.dropWhile (·.rest.isEmpty)) with
  | some p =>
    obtain ⟨d, ys⟩ := p
    rw [hlive, htake] at hpeek
    cases hpeek
    refine ⟨pushback_consume _, hpushback, ?_, ?_, ?_⟩
    · simp only [skip, expansions_consume]
      exact (dropWhile_skipText htake n).symm
    · simp only [skip, expansions_consume, source_consume]
      rw [length_expansionsText_of_takeFirst htake, Nat.add_sub_add_right]
      rfl
    · simp only [skip, maxDepth_consume]
      rfl
  | none =>
    -- the expansions have been read to their end, so the character comes from the source
    have htext : expansionsText i.expansions = [] := by
      have htext := expansionsText_of_takeFirst_none htake
      rwa [expansionsText_dropWhile] at htext
    have hfinished := dropWhile_of_expansionsText htext
    have hsource : i.source = .ok c :: rest := by
      simpa [upcoming, hpushback, htext] using hup
    rw [hlive, htake, show (i.hold false).source = .ok c :: rest from hsource] at hpeek
    cases hpeek
    refine ⟨pushback_consume _, hpushback, ?_, ?_, ?_⟩
    · simp only [skip, expansions_consume, hfinished, skipText_of_expansionsText htext]
      rfl
    · simp only [skip, expansions_consume, source_consume, hfinished, htext, hsource]
      rfl
    · simp only [skip, maxDepth_consume]
      rfl

/-- The characters that come next are given, and leave what is left without them. -/
theorem gives_skip {rest : Source} (hpushback : i.pushback = none)
    (hup : i.upcoming = cs.map .ok ++ rest) : (i.skip cs.length).Gives cs i := by
  induction cs generalizing i with
  | nil =>
    refine ⟨hpushback, hpushback, ?_, ?_, rfl⟩
    · rw [List.length_nil, skip, skipText_zero]
    · rw [List.length_nil, skip, Nat.zero_sub, List.drop_zero]
  | cons c cs ih =>
    obtain ⟨j, hpeek, -, hrest⟩ := peek_of_upcoming_cons (i := i.hold false)
      (by rw [upcoming_hold]; exact hup)
    refine ⟨j, hpeek, (ih (pushback_consume j) hrest).of_level ?_⟩
    exact level_skip hpushback hup hpeek cs.length

end Input

end Markup
