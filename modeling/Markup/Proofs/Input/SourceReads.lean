import Markup.Input.Weight
import Markup.Proofs.Input.OpenEntities
import Mathlib.Data.List.DropRight

/-!
# The reads that are left of a source

A read of the source that has been looked at and not taken is no longer in the source: it is put
back, or it has been put back and covered by an expansion. `Input.Keeps` says where an input has
the reads that are left of its source, and what is known of the entities that are being expanded
around the first of them once it has been looked at. A look at an input that is not held drops all
expansions before it comes to the source, so then there are none; a look at one that is held leaves
those that it finds (`Keeps.peek`). Taking a character of an expansion and expanding an entity
change neither (`Keeps.consume`, `Keeps.pushEntity`).
-/

namespace Markup

variable {xs ys zs : List Expansion} {c d : Char} {e : Option String} {cs : List Char}

/-- The first character does not depend on later expansions. -/
theorem takeFirst_append (h : takeFirst xs = some (c, zs)) :
    takeFirst (xs ++ ys) = some (c, zs ++ ys) := by
  induction xs generalizing zs with
  | nil => cases h
  | cons x xs ih =>
    simp only [takeFirst] at h
    simp only [List.cons_append, takeFirst]
    split at h
    · cases h
      rfl
    · obtain ⟨⟨d, us⟩, hus, heq⟩ := Option.map_eq_some_iff.1 h
      cases heq
      rw [ih hus]
      rfl

/-- Expansions without text are passed over. -/
theorem takeFirst_append_of_none (h : takeFirst xs = none) :
    takeFirst (xs ++ ⟨e, c :: cs⟩ :: ys) = some (c, xs ++ ⟨e, cs⟩ :: ys) := by
  induction xs with
  | nil => rfl
  | cons x xs ih =>
    simp only [takeFirst] at h
    split at h
    · cases h
    · rename_i hrest
      simp only [List.cons_append, takeFirst, hrest]
      rw [ih (Option.map_eq_none_iff.1 h)]
      rfl

/-- Dropping finished expansions ends at one with text left. -/
theorem dropWhile_append_cons :
    (xs ++ ⟨e, c :: cs⟩ :: ys).dropWhile (·.rest.isEmpty) =
      xs.dropWhile (·.rest.isEmpty) ++ ⟨e, c :: cs⟩ :: ys := by
  rw [List.dropWhile_append]
  split
  · rename_i hempty
    rw [List.isEmpty_iff.1 hempty]
    rfl
  · rfl

/-- All expansions have finished if none of those that are left has text. -/
theorem dropWhile_eq_nil_of_takeFirst (h : takeFirst (xs.dropWhile (·.rest.isEmpty)) = none) :
    xs.dropWhile (·.rest.isEmpty) = [] := by
  have hnil := dropWhile_of_takeFirst_none h
  rwa [List.dropWhile_idempotent] at hnil

namespace Input

/-- Where an input has the reads that are left of its source. Once the first of them has been looked
at, the entities that are being expanded around it are as `around` says. -/
inductive Keeps (around : List String → Prop) (rest : Source) (i : Input) : Prop
  /-- None has been looked at. -/
  | unseen : i.source = rest → Keeps around rest i
  /-- The first is put back. -/
  | putBack {c : Char} : rest = .ok c :: i.source → i.pushback = some c →
      expansionsText i.expansions = [] → around i.openNames → Keeps around rest i
  /-- The first has been put back and covered. -/
  | covered {c : Char} {xs ys : List Expansion} : rest = .ok c :: i.source →
      i.expansions = xs ++ ⟨none, [c]⟩ :: ys → expansionsText ys = [] →
      around (Markup.openNames ys) → Keeps around rest i

variable {around : List String → Prop} {rest : Source} {i j : Input} {c? : Option Char}
  {name text : String}

/-- The first read is put back where it is next and something is put back. -/
theorem Keeps.seen (h : i.Keeps around rest) (hup : i.upcoming = rest) (hc : i.pushback = some c) :
    rest = .ok c :: i.source ∧ around i.openNames := by
  have hlength := congrArg List.length hup
  simp only [upcoming, hc, List.length_append, List.length_map, Option.toList_some,
    List.length_singleton] at hlength
  cases h with
  | unseen hsource =>
    rw [hsource] at hlength
    omega
  | @putBack d hrest hd _ haround =>
    rw [hc] at hd
    cases hd
    exact ⟨hrest, haround⟩
  | @covered d xs ys hrest hexpansions _ _ =>
    -- what is put back comes before what is covered
    rw [hexpansions, hrest] at hlength
    simp only [expansionsText, List.flatMap_append, List.flatMap_cons, List.length_append,
      List.length_cons, List.length_nil] at hlength
    omega

/-- Holding expansions opens and closes none. -/
theorem Keeps.hold (h : i.Keeps around rest) (holding : Bool) :
    (i.hold holding).Keeps around rest := by
  cases h with
  | unseen hsource => exact .unseen hsource
  | putBack hrest hc htext haround => exact .putBack hrest hc htext haround
  | covered hrest hexpansions hys haround => exact .covered hrest hexpansions hys haround

/-! ## Looking at the next character -/

/-- A look finds a covered read below some expansions. If none of them has text left, the entities
that are being expanded then are those around the read, or all that were when the input is held. -/
theorem exists_live_of_covered (hpushback : i.pushback = none) (hrest : rest = .ok c :: i.source)
    (hexpansions : i.expansions = xs ++ ⟨none, [c]⟩ :: ys) (hys : expansionsText ys = [])
    (haround : around (Markup.openNames ys))
    (hheld : i.upcoming = rest → i.holding = true → around i.openNames) :
    ∃ zs, i.liveExpansions = zs ++ ⟨none, [c]⟩ :: ys ∧
      (takeFirst zs = none → around (Markup.openNames zs ++ Markup.openNames ys)) := by
  by_cases hholding : i.holding = true
  · refine ⟨xs, ?_, fun hnone => ?_⟩
    · rw [liveExpansions_of_holding hholding, hexpansions]
    · have htext := expansionsText_of_takeFirst_none hnone
      have hup : i.upcoming = rest := by
        simp only [expansionsText] at htext hys
        simp [upcoming, hpushback, hexpansions, expansionsText, htext, hys, hrest]
      have hopen := hheld hup hholding
      rw [openNames, hexpansions, openNames_append] at hopen
      exact hopen
  · have hlive : i.liveExpansions = i.expansions.dropWhile (·.rest.isEmpty) := if_neg hholding
    refine ⟨xs.dropWhile (·.rest.isEmpty), ?_, fun hnone => ?_⟩
    · rw [hlive, hexpansions, dropWhile_append_cons]
    · rw [dropWhile_eq_nil_of_takeFirst hnone]
      exact haround

/-- A look leaves the reads where they are, or puts the first of them back. -/
theorem Keeps.peek (h : i.Keeps around rest) (hnone : around [])
    (hheld : i.upcoming = rest → i.holding = true → around i.openNames)
    (hpeek : i.peek = (.ok c?, j)) : j.Keeps around rest := by
  cases hp : i.pushback with
  | some d =>
    rw [peek_of_pushback hp] at hpeek
    cases hpeek
    exact h
  | none =>
    rw [peek_of_no_pushback hp] at hpeek
    cases h with
    | putBack _ hc =>
      rw [hp] at hc
      cases hc
    | unseen hsource =>
      cases ht : takeFirst i.liveExpansions with
      | some p =>
        simp only [ht] at hpeek
        cases hpeek
        exact .unseen hsource
      | none =>
        simp only [ht] at hpeek
        have htext := expansionsText_of_takeFirst_none ht
        split at hpeek
        · cases hpeek
          exact .unseen hsource
        · cases hpeek
        · rename_i c source hs
          cases hpeek
          refine .putBack (by rw [← hsource, hs]) rfl htext ?_
          show around (Markup.openNames i.liveExpansions)
          by_cases hholding : i.holding = true
          · rw [liveExpansions_of_holding hholding]
            refine hheld ?_ hholding
            rw [expansionsText_live] at htext
            simp [upcoming, hp, htext, hsource]
          · have hlive : i.liveExpansions = i.expansions.dropWhile (·.rest.isEmpty) :=
              if_neg hholding
            rw [hlive] at ht ⊢
            rw [dropWhile_eq_nil_of_takeFirst ht]
            exact hnone
    | covered hrest hexpansions hys haround =>
      obtain ⟨zs, hlive, hzs⟩ := exists_live_of_covered hp hrest hexpansions hys haround hheld
      rw [hlive] at hpeek
      cases ht : takeFirst zs with
      | some p =>
        -- text above the read comes first
        rw [takeFirst_append ht] at hpeek
        cases hpeek
        exact .covered hrest rfl hys haround
      | none =>
        rw [takeFirst_append_of_none ht] at hpeek
        cases hpeek
        have htext := expansionsText_of_takeFirst_none ht
        refine .putBack hrest rfl ?_ ?_
        · simp only [expansionsText] at htext hys
          simp [expansionsText, htext, hys]
        · show around (Markup.openNames _)
          rw [openNames_append]
          exact hzs ht

/-! ## Taking a character, expanding an entity -/

/-- Taking a character that is not the first of the reads leaves them where they are. -/
theorem Keeps.consume (h : i.Keeps around rest) (hne : i.upcoming ≠ rest ∨ i.pushback = none) :
    i.consume.Keeps around rest := by
  cases h with
  | unseen hsource => exact .unseen (source_consume.trans hsource)
  | @putBack c hrest hc htext haround =>
    exfalso
    rcases hne with hne | hnone
    · simp [upcoming, hc, htext, hrest] at hne
    · rw [hnone] at hc
      cases hc
  | covered hrest hexpansions hys haround =>
    exact .covered (by rw [source_consume]; exact hrest) (by rw [expansions_consume, hexpansions])
      hys haround

/-- Taking the first of the reads leaves the others in the source. -/
theorem Keeps.consume_first (h : i.Keeps around rest) (hup : i.upcoming = rest)
    (hc : i.pushback = some c) (around' : List String → Prop) :
    i.consume.Keeps around' rest.tail := by
  have hrest := (h.seen hup hc).1
  refine .unseen ?_
  rw [source_consume, hrest]
  rfl

/-- Expanding an entity covers what was put back. -/
theorem Keeps.pushEntity (h : i.Keeps around rest) (hpush : i.pushEntity name text = .ok j) :
    j.Keeps around rest := by
  rw [eq_of_pushEntity hpush]
  cases h with
  | unseen hsource => exact .unseen hsource
  | @putBack c hrest hc htext haround =>
    have hexpansions : (⟨some name, text.toList⟩ :: i.covered : List Expansion) =
        [⟨some name, text.toList⟩] ++ ⟨none, [c]⟩ :: i.expansions := by
      simp only [Input.covered, hc]
      rfl
    exact .covered hrest hexpansions htext haround
  | @covered c xs ys hrest hexpansions hys haround =>
    have hcovered : (⟨some name, text.toList⟩ :: i.covered : List Expansion) =
        (⟨some name, text.toList⟩ :: (i.pushback.toList.map (fun c => ⟨none, [c]⟩) ++ xs)) ++
          ⟨none, [c]⟩ :: ys := by
      simp [Input.covered, hexpansions]
    exact .covered hrest hcovered hys haround

end Input

end Markup
