import Markup.Proofs.Reader.Lockstep
import Markup.Session

/-!
# Delivering traces that are alike

What listeners receive, how a parse ends and which problems are recorded depends on the effects of
the trace alone (`performTrace_alike`), for any listeners and with or without a token. The lines of
issues and the log may differ.
-/

namespace Markup

/-- An action with a given effect. -/
def Effect.action : Effect → Action
  | checkpoint => .checkpoint
  | deliver event => .deliver event
  | problem cause => .report ⟨cause, 0⟩

namespace Session

variable {α : Type}

/-- Two sessions differ in the lines of their issues and in their logs at most. -/
structure Alike (s s' : Session α) : Prop where
  /-- Both look at the token, or neither does. -/
  cancellable : s.cancellable = s'.cancellable
  /-- The listeners are the same. -/
  listeners : s.listeners = s'.listeners
  /-- The token is in the same state. -/
  cancelled : s.cancelled = s'.cancelled
  /-- The same problems have been recorded. -/
  causes : s.issues.map Issue.cause = s'.issues.map Issue.cause

namespace Alike

variable {s s' s'' : Session α}

/-- A session is like itself. -/
theorem refl (s : Session α) : s.Alike s := ⟨rfl, rfl, rfl, rfl⟩

/-- Sessions are like each other. -/
theorem symm (h : s.Alike s') : s'.Alike s :=
  ⟨h.cancellable.symm, h.listeners.symm, h.cancelled.symm, h.causes.symm⟩

/-- Likeness passes through a session between. -/
theorem trans (h : s.Alike s') (h' : s'.Alike s'') : s.Alike s'' :=
  ⟨h.cancellable.trans h'.cancellable, h.listeners.trans h'.listeners,
    h.cancelled.trans h'.cancelled, h.causes.trans h'.causes⟩

variable [Listener α] {action : Action}

/-- A remark changes nothing but the log. -/
theorem perform_remark (h : s.Alike s') (hnone : action.effect? = none) :
    (s.perform action).1.Alike s' ∧ (s.perform action).2 = none := by
  cases action with
  | note remark => exact ⟨⟨h.cancellable, h.listeners, h.cancelled, h.causes⟩, rfl⟩
  | checkpoint => cases hnone
  | deliver event => cases hnone
  | report issue => cases hnone

/-- The same effect on sessions that are alike leaves them alike. -/
theorem perform_effect (h : s.Alike s') {effect : Effect} (heffect : action.effect? = some effect) :
    (s.perform action).1.Alike (s'.perform effect.action).1 ∧
      (s.perform action).2 = (s'.perform effect.action).2 := by
  cases action with
  | checkpoint =>
    cases heffect
    simp only [Effect.action, perform, h.cancellable, h.cancelled]
    exact ⟨h, trivial⟩
  | deliver event =>
    cases heffect
    simp only [Effect.action, perform, h.listeners, h.cancelled]
    exact ⟨⟨h.cancellable, rfl, rfl, h.causes⟩, trivial⟩
  | report issue =>
    cases heffect
    refine ⟨⟨h.cancellable, h.listeners, h.cancelled, ?_⟩, rfl⟩
    simp only [Effect.action, perform, issues, List.reverse_cons, List.map_append]
    exact congrArg (· ++ [issue.cause]) h.causes
  | note remark => cases heffect

end Alike

variable [Listener α]

/-- Performing actions is performing their effects. -/
theorem performAll_effects (actions : List Action) {s s' : Session α} (h : s.Alike s') :
    (s.performAll actions).1.Alike (s'.performAll ((effects actions).map Effect.action)).1 ∧
      (s.performAll actions).2 = (s'.performAll ((effects actions).map Effect.action)).2 := by
  induction actions generalizing s s' with
  | nil => exact ⟨h, rfl⟩
  | cons action actions ih =>
    cases heffect : action.effect? with
    | none =>
      obtain ⟨hsession, herror⟩ := h.perform_remark heffect
      rcases hperform : s.perform action with ⟨u, error⟩
      rw [hperform] at hsession herror
      dsimp only at hsession herror
      subst herror
      rw [effects, List.filterMap_cons_none heffect]
      simp only [performAll, hperform]
      exact ih hsession
    | some effect =>
      obtain ⟨hsession, herror⟩ := h.perform_effect heffect
      rcases hperform : s.perform action with ⟨u, error⟩
      rcases hperform' : s'.perform effect.action with ⟨u', error'⟩
      rw [hperform, hperform'] at hsession herror
      dsimp only at hsession herror
      subst herror
      rw [effects, List.filterMap_cons_some heffect, List.map_cons]
      simp only [performAll, hperform, hperform']
      cases error with
      | some error => exact ⟨hsession, rfl⟩
      | none => exact ih hsession

/-- Traces that are alike do the same to sessions that are alike. -/
theorem Alike.performTrace {s s' : Session α} (hs : s.Alike s') {t t' : Trace} (h : t.Alike t') :
    (s.performTrace t).1.Alike (s'.performTrace t').1 ∧
      (s.performTrace t).2 = (s'.performTrace t').2 := by
  obtain ⟨hsession, herror⟩ := performAll_effects t.actions hs
  obtain ⟨hsession', herror'⟩ := performAll_effects t'.actions (.refl s')
  rw [h.effects] at hsession herror
  have hboth := hsession.trans hsession'.symm
  have herrors := herror.trans herror'.symm
  rcases hperform : s.performAll t.actions with ⟨u, error⟩
  rcases hperform' : s'.performAll t'.actions with ⟨u', error'⟩
  rw [hperform, hperform'] at hboth herrors
  dsimp only at hboth herrors
  subst herrors
  simp only [Session.performTrace, hperform, hperform', h.outcome]
  cases error with
  | some error => exact ⟨hboth, rfl⟩
  | none =>
    cases t'.outcome with
    | finished => exact ⟨hboth, rfl⟩
    | failed failure => exact ⟨hboth, rfl⟩

/-- Traces that are alike do the same to listeners, end a parse in the same way and record the same
problems. -/
theorem performTrace_alike (s : Session α) {t t' : Trace} (h : t.Alike t') :
    (s.performTrace t).1.Alike (s.performTrace t').1 ∧
      (s.performTrace t).2 = (s.performTrace t').2 :=
  (Alike.refl s).performTrace h

end Session

end Markup
