import Markup.Input.Weight

/-!
# What an input still holds

`Input.upcoming` lists the reads that an input has yet to give: the character put back, then the
unread text of the expansions from the innermost outwards, then the source. Looking at the next
character leaves this list alone (`peek_ok`), consuming the character drops its head
(`upcoming_consume`), and an expansion puts its text in front (`upcoming_pushEntity`). How the list
is spread over the parts of the input does not matter to any of these statements.
-/

namespace Markup

/-- The unread text of a stack of expansions, innermost first. -/
def expansionsText (expansions : List Expansion) : List Char :=
  expansions.flatMap Expansion.rest

/-- The first unread character of the expansions heads their text. -/
theorem expansionsText_of_takeFirst {xs ys : List Expansion} {c : Char}
    (h : takeFirst xs = some (c, ys)) : expansionsText xs = c :: expansionsText ys := by
  induction xs generalizing ys with
  | nil => simp [takeFirst] at h
  | cons x xs ih =>
    simp only [takeFirst] at h
    split at h
    · rename_i d rest hrest
      simp only [Option.some.injEq, Prod.mk.injEq] at h
      obtain ⟨rfl, rfl⟩ := h
      simp [expansionsText, hrest]
    · rename_i hrest
      rw [Option.map_eq_some_iff] at h
      obtain ⟨⟨d, zs⟩, hz, heq⟩ := h
      simp only [Prod.mk.injEq] at heq
      obtain ⟨rfl, rfl⟩ := heq
      have hrec := ih hz
      simp only [expansionsText, List.flatMap_cons, hrest, List.nil_append] at hrec ⊢
      exact hrec

/-- Expansions without an unread character have no text. -/
theorem expansionsText_of_takeFirst_none {xs : List Expansion} (h : takeFirst xs = none) :
    expansionsText xs = [] := by
  induction xs with
  | nil => rfl
  | cons x xs ih =>
    simp only [takeFirst] at h
    split at h
    · cases h
    · rename_i hrest
      rw [Option.map_eq_none_iff] at h
      have hrec := ih h
      simp only [expansionsText, List.flatMap_cons, hrest, List.nil_append] at hrec ⊢
      exact hrec

/-- Expansions read to their end have no part in the text. -/
theorem expansionsText_dropWhile (xs : List Expansion) :
    expansionsText (xs.dropWhile (·.rest.isEmpty)) = expansionsText xs := by
  induction xs with
  | nil => rfl
  | cons x xs ih =>
    rw [List.dropWhile_cons]
    split
    · rename_i hx
      rw [ih]
      simp [expansionsText, List.isEmpty_iff.1 hx]
    · rfl

/-- Where no expansion has text left, every one of them has been read to its end. -/
theorem dropWhile_of_takeFirst_none {xs : List Expansion} (h : takeFirst xs = none) :
    xs.dropWhile (·.rest.isEmpty) = [] := by
  induction xs with
  | nil => rfl
  | cons x xs ih =>
    simp only [takeFirst] at h
    split at h
    · cases h
    · rename_i hrest
      rw [List.dropWhile_cons, hrest]
      exact ih (Option.map_eq_none_iff.1 h)

/-- Expansions without text have been read to their end. -/
theorem dropWhile_of_expansionsText {xs : List Expansion} (h : expansionsText xs = []) :
    xs.dropWhile (·.rest.isEmpty) = [] := by
  apply dropWhile_of_takeFirst_none
  cases ht : takeFirst xs with
  | none => rfl
  | some p =>
    rw [expansionsText_of_takeFirst ht] at h
    cases h

namespace Input

/-- The reads that the input has yet to give. -/
def upcoming (i : Input) : Source :=
  i.pushback.toList.map .ok ++ (expansionsText i.expansions).map .ok ++ i.source

@[simp] theorem upcoming_hold (i : Input) (holding : Bool) :
    (i.hold holding).upcoming = i.upcoming := rfl

@[simp] theorem upcoming_ofSource (source : Source) (maxDepth : Nat) :
    (ofSource source maxDepth).upcoming = source := rfl

@[simp] theorem expansionsText_live (i : Input) :
    expansionsText i.liveExpansions = expansionsText i.expansions := by
  unfold liveExpansions
  split
  · rfl
  · exact expansionsText_dropWhile _

/-- Consuming drops the character that was put back. -/
theorem upcoming_consume {i : Input} {c : Char} (h : i.pushback = some c) :
    i.upcoming = .ok c :: i.consume.upcoming := by
  have hconsume : i.consume.upcoming = (expansionsText i.expansions).map .ok ++ i.source := by
    unfold consume countLine
    split <;> simp [upcoming]
  rw [hconsume]
  simp [upcoming, h]

/-! ## Looking at the next character -/

/-- Looking at the next character gives the head of what is upcoming and leaves all of it in
place, except that a read that fails is used up. -/
theorem peek_spec (i : Input) :
    match i.peek with
    | (.ok none, j) => i.upcoming = [] ∧ j.upcoming = []
    | (.ok (some c), j) => i.upcoming = .ok c :: j.consume.upcoming ∧ j.upcoming = i.upcoming
    | (.error failure, j) => i.upcoming = .error failure :: j.upcoming := by
  cases hp : i.pushback with
  | some c =>
    -- a character that was looked at before is still the next one
    rw [peek_of_pushback hp]
    exact ⟨upcoming_consume hp, rfl⟩
  | none =>
    rw [peek_of_no_pushback hp]
    cases ht : takeFirst i.liveExpansions with
    | some p =>
      -- expansions come before the source, and those that are finished have no text
      obtain ⟨c, ys⟩ := p
      have htext := expansionsText_of_takeFirst ht
      rw [expansionsText_live] at htext
      have hup : Input.upcoming { i with expansions := ys, pushback := some c } = i.upcoming := by
        simp [upcoming, hp, htext]
      refine ⟨?_, hup⟩
      rw [← hup]
      exact upcoming_consume rfl
    | none =>
      have htext := expansionsText_of_takeFirst_none ht
      have htext' := htext
      rw [expansionsText_live] at htext'
      cases hs : i.source with
      | nil => exact ⟨by simp [upcoming, hp, hs, htext'], by simp [upcoming, htext', hp]⟩
      | cons item source =>
        cases item with
        | error failure => simp [upcoming, hp, hs, htext']
        | ok c =>
          have hup : Input.upcoming
              { i with
                expansions := i.liveExpansions
                source
                lineEndPending := i.lineEndPending || c == '\n'
                pushback := some c } = i.upcoming := by
            simp [upcoming, hp, hs, htext']
          refine ⟨?_, hup⟩
          rw [← hup]
          exact upcoming_consume rfl

/-- At a character, looking gives the character. -/
theorem peek_of_upcoming_cons {i : Input} {c : Char} {rest : Source}
    (h : i.upcoming = .ok c :: rest) :
    ∃ j, i.peek = (.ok (some c), j) ∧ j.upcoming = .ok c :: rest ∧ j.consume.upcoming = rest := by
  have hspec := peek_spec i
  split at hspec
  · rw [h] at hspec
    cases hspec.1
  · rename_i d j hpeek
    rw [h] at hspec
    obtain ⟨hhead, hkept⟩ := hspec
    simp only [List.cons.injEq, Except.ok.injEq] at hhead
    obtain ⟨rfl, hrest⟩ := hhead
    exact ⟨j, hpeek, hkept, hrest.symm⟩
  · rw [h] at hspec
    cases hspec

/-- At the end of the input, looking finds the end. -/
theorem peek_of_upcoming_nil {i : Input} (h : i.upcoming = []) :
    ∃ j, i.peek = (.ok none, j) ∧ j.upcoming = [] := by
  have hspec := peek_spec i
  split at hspec
  · rename_i j hpeek
    exact ⟨j, hpeek, hspec.2⟩
  · rw [h] at hspec
    cases hspec.1
  · rw [h] at hspec
    cases hspec

/-- The next character stays the next one, and what comes after it is left when it is consumed. -/
theorem peek_ok {i j : Input} {c? : Option Char} (h : i.peek = (.ok c?, j)) :
    j.upcoming = i.upcoming ∧
      ∀ c, c? = some c → i.upcoming = .ok c :: j.consume.upcoming := by
  have hspec := peek_spec i
  rw [h] at hspec
  cases c? with
  | none => exact ⟨by rw [hspec.1, hspec.2], fun c hc => by cases hc⟩
  | some c =>
    refine ⟨hspec.2, fun d hd => ?_⟩
    cases hd
    exact hspec.1

/-- A second look finds what the first one has found, and changes nothing. -/
theorem peek_peek {i j : Input} {c? : Option Char} (h : i.peek = (.ok c?, j)) :
    j.peek = (.ok c?, j) := by
  cases c? with
  | some c => exact peek_of_pushback (pushback_of_peek h)
  | none =>
    have hspec := peek_spec i
    rw [h] at hspec
    have hup := hspec.1
    simp only [Input.upcoming, List.append_eq_nil_iff, List.map_eq_nil_iff,
      Option.toList_eq_nil_iff] at hup
    obtain ⟨⟨hpushback, htext⟩, hsource⟩ := hup
    have htake : takeFirst i.liveExpansions = none := by
      cases htake : takeFirst i.liveExpansions with
      | none => rfl
      | some p =>
        have hcons := expansionsText_of_takeFirst htake
        rw [expansionsText_live, htext] at hcons
        cases hcons
    have hlive : liveExpansions { i with expansions := i.liveExpansions } = i.liveExpansions := by
      unfold liveExpansions
      cases i.holding with
      | true => rfl
      | false =>
        rw [if_neg Bool.false_ne_true, dropWhile_of_expansionsText htext]
        rfl
    have hpeek : i.peek = (.ok none, { i with expansions := i.liveExpansions }) := by
      rw [peek_of_no_pushback hpushback, htake]
      simp only [hsource]
    cases h.symm.trans hpeek
    rw [peek_of_no_pushback (i := { i with expansions := i.liveExpansions }) hpushback, hlive,
      htake]
    simp only [hsource]

/-- A look does not change whether expansions are held. -/
theorem holding_of_peek {r : Except ReadFailure (Option Char)} {i j : Input}
    (h : i.peek = (r, j)) : j.holding = i.holding := by
  cases hp : i.pushback with
  | some c =>
    rw [peek_of_pushback hp] at h
    cases h
    rfl
  | none =>
    rw [peek_of_no_pushback hp] at h
    split at h
    · cases h
      rfl
    · split at h <;>
      · cases h
        rfl

/-- The same for an input that is held, or not, before each of the looks. -/
theorem peek_hold_of_peek {holding : Bool} {i j : Input} {c? : Option Char}
    (h : (i.hold holding).peek = (.ok c?, j)) : (j.hold holding).peek = (.ok c?, j) := by
  have hheld : j.hold holding = j := by
    rw [← show j.holding = holding from holding_of_peek h]
    rfl
  rw [hheld]
  exact peek_peek h

/-- The replacement text of an entity comes before all that was upcoming. -/
theorem upcoming_pushEntity {i j : Input} {name text : String}
    (h : i.pushEntity name text = .ok j) : j.upcoming = text.toList.map .ok ++ i.upcoming := by
  unfold pushEntity at h
  split at h
  · cases h
  · split at h
    · cases h
    · simp only [Except.ok.injEq] at h
      subst h
      cases hp : i.pushback <;> simp [upcoming, hp, expansionsText]

end Input

end Markup
