import Markup.Proofs.Input.Upcoming
import Markup.Reader.Run

/-!
# Reaching a state

`Reaches g s actions t` says that the reader gets from `s` to `t` and performs `actions` on the
way. What holds at the start and is kept by every step holds wherever the reader gets
(`Reaches.invariant`), and every run gets to the state in which it stops (`exists_stop`).
-/

namespace Markup.Reader

/-! ## The look of a step -/

/-- The input after the look with which a step begins. -/
def State.looked (s : State) : Input :=
  (s.input.hold s.mode.isHeld).peek.2

/-- A step goes by the character that it looks at. -/
theorem step_of_peek {g : Grammar} {s : State} {c? : Option Char} {j : Input}
    (h : (s.input.hold s.mode.isHeld).peek = (.ok c?, j)) :
    step g s = stepOn g ⟨j, s.mode, s.document⟩ c? := by
  unfold step
  rw [h]

/-- A step that goes on has looked at a character or at the end of the input. -/
theorem exists_peek_of_running {g : Grammar} {s t : State} {actions : List Action}
    (h : step g s = (actions, .running t)) :
    ∃ c?, (s.input.hold s.mode.isHeld).peek = (.ok c?, s.looked) ∧
      stepOn g ⟨s.looked, s.mode, s.document⟩ c? = (actions, .running t) := by
  unfold step at h
  unfold State.looked
  split at h
  · cases h
  · rename_i c? input hpeek
    rw [hpeek]
    exact ⟨c?, rfl, h⟩

/-! ## Steps in a row -/

/-- The reader gets from one state to another, with these actions. -/
inductive Reaches (g : Grammar) : State → List Action → State → Prop
  /-- Without a step. -/
  | refl (s : State) : Reaches g s [] s
  /-- With a first step. -/
  | step {s t u : State} {actions more : List Action} :
      Reader.step g s = (actions, .running t) → Reaches g t more u →
      Reaches g s (actions ++ more) u

namespace Reaches

variable {g : Grammar} {s t u : State} {actions more : List Action}

/-- One step reaches the next state. -/
theorem single (h : Reader.step g s = (actions, .running t)) : Reaches g s actions t := by
  have hreach := Reaches.step h (.refl t)
  rwa [List.append_nil] at hreach

/-- What is reached from a state that is reached is reached. -/
theorem trans (h : Reaches g s actions t) (h' : Reaches g t more u) :
    Reaches g s (actions ++ more) u := by
  induction h with
  | refl => exact h'
  | step hstep _ ih =>
    rw [List.append_assoc]
    exact .step hstep (ih h')

/-- What every step keeps holds wherever the reader gets. -/
theorem invariant {P : State → Prop}
    (keeps : ∀ {s t actions}, P s → Reader.step g s = (actions, .running t) → P t)
    (h : Reaches g s actions t) (hs : P s) : P t := by
  induction h with
  | refl => exact hs
  | step hstep _ ih => exact ih (keeps hs hstep)

/-- A run goes on from wherever it gets. -/
theorem run_eq (h : Reaches g s actions t) : run g s = (run g t).prepend actions := by
  induction h with
  | refl => simp [Trace.prepend]
  | step hstep _ ih =>
    rw [Reader.run_eq, hstep]
    simp only [ih, Trace.prepend, List.append_assoc]

end Reaches

/-- A run that stops in its first step. -/
theorem run_of_stopped {g : Grammar} {s : State} {actions : List Action} {outcome : Outcome}
    (h : step g s = (actions, .stopped outcome)) : run g s = ⟨actions, outcome⟩ := by
  rw [run_eq, h]

/-- Every run gets to a state in which it stops. -/
theorem exists_stop (g : Grammar) (s : State) :
    ∃ actions t last outcome, Reaches g s actions t ∧ step g t = (last, .stopped outcome) ∧
      run g s = ⟨actions ++ last, outcome⟩ := by
  generalize hn : load g.dtd.longestReplacement s.input s.mode = n
  induction n using Nat.strongRecOn generalizing s with
  | _ n ih =>
    subst hn
    rcases hstep : step g s with ⟨actions, progress⟩
    cases progress with
    | stopped outcome => exact ⟨[], s, actions, outcome, .refl s, hstep, run_of_stopped hstep⟩
    | running t =>
      have hlt := load_step_lt (congrArg Prod.snd hstep)
      obtain ⟨more, u, last, outcome, hreach, hstop, _⟩ := ih _ hlt t rfl
      refine ⟨actions ++ more, u, last, outcome, .step hstep hreach, hstop, ?_⟩
      rw [(Reaches.step hstep hreach).run_eq, run_of_stopped hstop]
      rfl

/-- What the reader does on its way is done by one of its steps. -/
theorem Reaches.exists_step {g : Grammar} {s t : State} {actions : List Action} {action : Action}
    (h : Reaches g s actions t) (hmem : action ∈ actions) :
    ∃ before u, Reaches g s before u ∧ action ∈ (Reader.step g u).1 := by
  induction h with
  | refl => cases hmem
  | @step s t u first more hstep _ ih =>
    rcases List.mem_append.1 hmem with hfirst | hmore
    · exact ⟨[], s, .refl s, by rwa [hstep]⟩
    · obtain ⟨before, v, hreach, hlast⟩ := ih hmore
      exact ⟨first ++ before, v, .step hstep hreach, hlast⟩

/-- What reading a document does is done by one of its steps. -/
theorem exists_step_of_read {g : Grammar} {source : Source} {action : Action}
    (h : action ∈ (read g source).actions) :
    ∃ before s, Reaches g (.start g source) before s ∧ action ∈ (step g s).1 := by
  obtain ⟨actions, t, last, outcome, hreach, hstop, hrun⟩ := exists_stop g (.start g source)
  rw [read, hrun] at h
  rcases List.mem_append.1 h with hactions | hlast
  · exact hreach.exists_step hactions
  · exact ⟨actions, t, hreach, by rwa [hstop]⟩

/-! ## Computing a run -/

/-- The run from a state, if it has at most a number of steps. -/
def runWithin (g : Grammar) : Nat → State → Option Trace
  | 0, _ => none
  | n + 1, s =>
    match step g s with
    | (actions, .stopped outcome) => some ⟨actions, outcome⟩
    | (actions, .running t) => (runWithin g n t).map (Trace.prepend actions)

/-- A run that is computed in a number of steps is the run. -/
theorem run_of_runWithin {g : Grammar} {n : Nat} {s : State} {t : Trace}
    (h : runWithin g n s = some t) : run g s = t := by
  induction n generalizing s t with
  | zero => cases h
  | succ n ih =>
    rw [run_eq]
    unfold runWithin at h
    rcases hstep : step g s with ⟨actions, next | outcome⟩
    · rw [hstep] at h
      obtain ⟨rest, hrest, rfl⟩ := Option.map_eq_some_iff.1 h
      show (run g next).prepend actions = _
      rw [ih hrest]
    · rw [hstep] at h
      exact Option.some.inj h

/-- What a computed run shows, such as its events and how it ends. -/
theorem shows_of_runWithin {α : Type} {g : Grammar} {s : State} {x : α} (shown : Trace → α)
    (n : Nat) (h : (runWithin g n s).map shown = some x) : shown (run g s) = x := by
  obtain ⟨t, ht, hx⟩ := Option.map_eq_some_iff.1 h
  rw [run_of_runWithin ht, hx]

/-- The state after a number of steps, if reading goes on that long. -/
def stateAfter (g : Grammar) : Nat → State → Option State
  | 0, s => some s
  | n + 1, s =>
    match step g s with
    | (_, .stopped _) => none
    | (_, .running t) => stateAfter g n t

/-- The reader gets to a state that is computed in a number of steps. -/
theorem exists_reaches_of_stateAfter {g : Grammar} {n : Nat} {s t : State}
    (h : stateAfter g n s = some t) : ∃ actions, Reaches g s actions t := by
  induction n generalizing s with
  | zero =>
    obtain rfl : s = t := Option.some.inj h
    exact ⟨[], .refl s⟩
  | succ n ih =>
    unfold stateAfter at h
    rcases hstep : step g s with ⟨actions, next | outcome⟩
    · rw [hstep] at h
      obtain ⟨more, hmore⟩ := ih h
      exact ⟨actions ++ more, .step hstep hmore⟩
    · rw [hstep] at h
      cases h

end Markup.Reader
