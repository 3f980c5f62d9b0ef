import Markup.Proofs.Reader.Parallel

/-!
# Two readings in lockstep

Two readings whose states are related, and stay so step by step, have the same effects and end alike
(`run_alike`). One of them may take several steps to catch up with one step of the other
(`run_alike_of_catchesUp`). The induction is on the load of the state of the other reading, which
every step lowers.
-/

namespace Markup

/-- Two traces have the same effects and end alike. -/
structure Trace.Alike (t t' : Trace) : Prop where
  /-- The effects are the same. -/
  effects : effects t.actions = effects t'.actions
  /-- So is the end. -/
  outcome : t.outcome = t'.outcome

/-- Actions with the same effects before traces that are alike. -/
theorem alike_prepend {t t' : Trace} (h : t.Alike t') {actions actions' : List Action}
    (heffects : effects actions = effects actions') :
    (t.prepend actions).Alike (t'.prepend actions') := by
  refine ⟨?_, h.outcome⟩
  simp only [Trace.prepend, effects_append]
  rw [heffects, h.effects]

namespace Reader

/-- The reading from `s` catches up with a step from `s'`, with as many steps as it needs: both come
to related states with the same effects, or the readings are alike already. -/
inductive CatchesUp (g : Grammar) (R : State → State → Prop) (s s' : State) : Prop
  /-- The readings are alike. -/
  | ends : (run g s).Alike (run g s') → CatchesUp g R s s'
  /-- Both go on. -/
  | goes {actions actions' : List Action} {t t' : State} : Reaches g s actions t →
      step g s' = (actions', .running t') → effects actions = effects actions' → R t t' →
      CatchesUp g R s s'

/-- Related states are read alike if one reading always catches up with the other. -/
theorem run_alike_of_catchesUp {g : Grammar} {R : State → State → Prop}
    (hstep : ∀ s s', R s s' → CatchesUp g R s s') {s s' : State} (h : R s s') :
    (run g s).Alike (run g s') := by
  generalize hn : load g.dtd.longestReplacement s'.input s'.mode = n
  induction n using Nat.strongRecOn generalizing s s' with
  | _ n ih =>
    subst hn
    cases hstep s s' h with
    | ends halike => exact halike
    | goes hreach hmove heffects hrelated =>
      have hrest := ih _ (load_step_lt (congrArg Prod.snd hmove)) hrelated rfl
      rw [hreach.run_eq, (Reaches.single hmove).run_eq]
      exact alike_prepend hrest heffects

/-- Two moves with the same effects stop alike or lead to related states. -/
inductive Matches (R : State → State → Prop) : Move → Move → Prop
  /-- Both stop. -/
  | stops {actions actions' : List Action} {outcome : Outcome} :
      effects actions = effects actions' →
      Matches R (actions, .stopped outcome) (actions', .stopped outcome)
  /-- Both go on. -/
  | goes {actions actions' : List Action} {t t' : State} : effects actions = effects actions' →
      R t t' → Matches R (actions, .running t) (actions', .running t')

/-- Steps that match need no catching up. -/
theorem CatchesUp.of_matches {g : Grammar} {R : State → State → Prop} {s s' : State}
    (h : Matches R (step g s) (step g s')) : CatchesUp g R s s' := by
  rcases hmove : step g s with ⟨actions, progress⟩
  rcases hmove' : step g s' with ⟨actions', progress'⟩
  rw [hmove, hmove'] at h
  cases h with
  | stops heffects =>
    apply CatchesUp.ends
    rw [run_of_stopped hmove, run_of_stopped hmove']
    exact ⟨heffects, rfl⟩
  | goes heffects hnext => exact .goes (.single hmove) hmove' heffects hnext

/-- Related states are read alike if their steps match. -/
theorem run_alike {g : Grammar} {R : State → State → Prop}
    (hstep : ∀ s s', R s s' → Matches R (step g s) (step g s')) {s s' : State} (h : R s s') :
    (run g s).Alike (run g s') :=
  run_alike_of_catchesUp (fun s s' hrelated => .of_matches (hstep s s' hrelated)) h

/-- Readings are alike if their first steps match and related states are read alike. -/
theorem run_alike_of_matches {g : Grammar} {R : State → State → Prop} {s s' : State}
    (hrun : ∀ t t', R t t' → (run g t).Alike (run g t')) (h : Matches R (step g s) (step g s')) :
    (run g s).Alike (run g s') := by
  cases CatchesUp.of_matches h with
  | ends halike => exact halike
  | goes hreach hmove heffects hnext =>
    rw [hreach.run_eq, (Reaches.single hmove).run_eq]
    exact alike_prepend (hrun _ _ hnext) heffects

end Reader

end Markup
