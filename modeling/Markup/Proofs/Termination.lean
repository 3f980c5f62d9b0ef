import Markup.Proofs.Input.OpenEntities
import Markup.Proofs.Reader.Parallel

/-!
# Reading ends, whatever the entities

`Consumes g s n cs t` says that the reader gets from `s` to `t` in `n` steps, each of which looks at
one character, and that it takes the characters `cs` on the way. Every step lowers the load of the
state, so the load of the start bounds the number of steps, and the characters taken are no more
than the steps (`Consumes.length_le`, `Consumes.load_le`). The load of the start depends only on the
length of the source, the longest replacement text and the depth that expansions may have.
-/

namespace Markup

/-- The characters that a step takes off an input whose next character it has looked at. -/
def Input.taken (i : Input) (takes : Bool) : List Char :=
  bif takes then i.pushback.toList else []

/-- No more than one character is taken. -/
theorem Input.length_taken_le (i : Input) (takes : Bool) : (i.taken takes).length ≤ 1 := by
  cases takes with
  | false => exact Nat.zero_le _
  | true =>
    cases h : i.pushback with
    | none => simp [taken, h]
    | some c => simp [taken, h]

namespace Reader

/-- What a step can do to an input `i` whose next character it has looked at: it takes characters,
and it may expand an entity. -/
inductive Takes (g : Grammar) (i : Input) : List Char → Input → Prop
  /-- No entity is expanded. -/
  | goes (takes : Bool) : Takes g i (i.taken takes) (i.after takes)
  /-- An entity is expanded. -/
  | expands {name : String} {entity : Entity} {j : Input} (takes : Bool) :
      g.dtd.entity? name = some entity →
      (i.after takes).pushEntity name entity.replacement = .ok j → Takes g i (i.taken takes) j

/-- The reader gets from one state to another in a number of steps and takes these characters. -/
inductive Consumes (g : Grammar) : State → Nat → List Char → State → Prop
  /-- Without a step. -/
  | refl (s : State) : Consumes g s 0 [] s
  /-- With a first step. -/
  | step {s t u : State} {actions : List Action} {n : Nat} {cs ds : List Char} :
      Reader.step g s = (actions, .running t) → Takes g s.looked cs t.input →
      Consumes g t n ds u → Consumes g s (n + 1) (cs ++ ds) u

/-- The most steps that a source of a length can take, by the longest replacement text and the
depth that expansions may have. -/
def consumptionBound (d : Dtd) (maxDepth length : Nat) : Nat :=
  16 * (length * characterWeight d.longestReplacement maxDepth) + 4

variable {g : Grammar} {s t : State} {i j : Input} {cs : List Char} {n limit : Nat}
  {actions : List Action}

/-! ## One step -/

/-- A step takes no more than one character. -/
theorem Takes.length_le (h : Takes g i cs j) : cs.length ≤ 1 := by
  cases h with
  | goes takes => exact i.length_taken_le takes
  | expands takes => exact i.length_taken_le takes

/-- Entities nest within the limit when a character is taken. -/
theorem nests_after (h : i.Nests limit) (takes : Bool) : (i.after takes).Nests limit := by
  cases takes with
  | false => exact h
  | true => exact h.consume

/-- Entities nest within the limit after a step. -/
theorem Takes.nests (h : Takes g i cs j) (hi : i.Nests limit) : j.Nests limit := by
  cases h with
  | goes takes => exact nests_after hi takes
  | expands takes _ hpush => exact (nests_after hi takes).pushEntity hpush

/-- A look keeps the entities distinct and within the limit. -/
theorem nests_looked (h : s.input.Nests limit) : s.looked.Nests limit :=
  (h.hold s.mode.isHeld).peek rfl

/-- Every step takes characters in one of the ways that are listed. -/
theorem exists_takes (h : step g s = (actions, .running t)) :
    ∃ cs, Takes g s.looked cs t.input := by
  obtain ⟨takes, ⟨hinput, -⟩ | ⟨name, entity, -, -, hentity, hpush⟩⟩ := running_cases h
  · rw [hinput]
    exact ⟨_, .goes takes⟩
  · exact ⟨_, .expands takes hentity hpush⟩

/-! ## Many steps -/

namespace Consumes

/-- No more characters are taken than steps are made. -/
theorem length_le (h : Consumes g s n cs t) : cs.length ≤ n := by
  induction h with
  | refl => exact Nat.le_refl _
  | step _ htakes _ ih =>
    have hone := htakes.length_le
    rw [List.length_append]
    omega

/-- Every step is paid for by the load of the state. -/
theorem load_le (h : Consumes g s n cs t) :
    n + load g.dtd.longestReplacement t.input t.mode ≤
      load g.dtd.longestReplacement s.input s.mode := by
  induction h with
  | refl => exact Nat.le_of_eq (Nat.zero_add _)
  | step hstep _ _ ih =>
    have hlt := load_step_lt (congrArg Prod.snd hstep)
    omega

/-- Entities stay distinct and within the limit. -/
theorem nests (h : Consumes g s n cs t) (hs : s.input.Nests limit) : t.input.Nests limit := by
  induction h with
  | refl => exact hs
  | step _ htakes _ ih => exact ih (htakes.nests (nests_looked hs))

end Consumes

/-- Wherever the reader gets, it gets there in some number of steps, taking some characters. -/
theorem Reaches.exists_consumes (h : Reaches g s actions t) : ∃ n cs, Consumes g s n cs t := by
  induction h with
  | refl => exact ⟨0, [], .refl _⟩
  | step hstep _ ih =>
    obtain ⟨n, ds, hrest⟩ := ih
    obtain ⟨cs, htakes⟩ := exists_takes hstep
    exact ⟨n + 1, cs ++ ds, .step hstep htakes hrest⟩

/-- The load of the start of a source. -/
theorem load_start (g : Grammar) (source : Source) :
    load g.dtd.longestReplacement (State.start g source).input (State.start g source).mode =
      consumptionBound g.dtd g.dialect.maxDepth source.length := by
  simp [State.start, Input.ofSource, Input.weight, expansionsWeight, consumptionBound]

/-- Reading a source ends after a number of steps, and so of characters, that depends only on the
declarations, the depth that expansions may have and the length of the source; all along the
entities that are being expanded are distinct and no more than the depth allows. -/
theorem consumption_bounded (g : Grammar) (source : Source) :
    (∃ n cs t last, Consumes g (.start g source) n cs t ∧
        step g t = (last, .stopped (read g source).outcome)) ∧
      ∀ n cs t, Consumes g (.start g source) n cs t →
        (cs.length ≤ n ∧ n ≤ consumptionBound g.dtd g.dialect.maxDepth source.length) ∧
          t.input.Nests g.dialect.maxDepth ∧ t.looked.Nests g.dialect.maxDepth := by
  constructor
  · obtain ⟨actions, t, last, outcome, hreach, hstop, hrun⟩ := exists_stop g (.start g source)
    obtain ⟨n, cs, hconsumes⟩ := hreach.exists_consumes
    refine ⟨n, cs, t, last, hconsumes, ?_⟩
    rw [read, hrun]
    exact hstop
  · intro n cs t h
    have hload := h.load_le
    rw [load_start] at hload
    have hnests := h.nests (Input.nests_ofSource source g.dialect.maxDepth)
    exact ⟨⟨h.length_le, by omega⟩, hnests, nests_looked hnests⟩

end Reader

end Markup
