import Markup.Proofs.Session.Alike
import Markup.Proofs.Session.Interruption

/-!
# Actions without events

Without a token, actions that deliver nothing do not change what listeners receive later, nor how a
parse ends: they only put their problems in front of those that follow (`performTrace_quiet`).
-/

namespace Markup.Session

variable {α : Type}

/-! ## Earlier issues -/

/-- The session with issues recorded before its own. -/
def withEarlier (s : Session α) (earlier : List Issue) : Session α :=
  { s with recorded := s.recorded ++ earlier.reverse }

/-- Earlier issues come first. -/
@[simp] theorem issues_withEarlier (s : Session α) (earlier : List Issue) :
    (s.withEarlier earlier).issues = earlier ++ s.issues := by
  show (s.recorded ++ earlier.reverse).reverse = _
  rw [List.reverse_append, List.reverse_reverse]
  rfl

variable [Listener α]

/-- Earlier issues do not matter to an action. -/
theorem perform_withEarlier (s : Session α) (earlier : List Issue) (action : Action) :
    (s.withEarlier earlier).perform action =
      ((s.perform action).1.withEarlier earlier, (s.perform action).2) := by
  cases action <;> rfl

/-- Earlier issues do not matter to actions. -/
theorem performAll_withEarlier (s : Session α) (earlier : List Issue) (actions : List Action) :
    (s.withEarlier earlier).performAll actions =
      ((s.performAll actions).1.withEarlier earlier, (s.performAll actions).2) := by
  induction actions generalizing s with
  | nil => rfl
  | cons action actions ih =>
    rw [performAll, performAll, perform_withEarlier]
    rcases s.perform action with ⟨t, error?⟩
    cases error? with
    | none => exact ih t
    | some error => rfl

/-- A parse goes as it would if the issues recorded before had been taken. -/
theorem performTrace_takeIssues (s : Session α) (t : Trace) :
    s.performTrace t =
      ((s.takeIssues.1.performTrace t).1.withEarlier s.issues,
        (s.takeIssues.1.performTrace t).2) := by
  have hsession : s.takeIssues.1.withEarlier s.issues = s := by
    show ({ s with recorded := s.recorded.reverse.reverse } : Session α) = s
    rw [List.reverse_reverse]
  have hactions := s.takeIssues.1.performAll_withEarlier s.issues t.actions
  rw [hsession] at hactions
  rw [performTrace, performTrace, hactions]
  rcases s.takeIssues.1.performAll t.actions with ⟨u, error?⟩
  cases error? with
  | some error => rfl
  | none => cases t.outcome <;> rfl

/-! ## Quiet actions -/

/-- Actions without events are performed to the last one, and change nothing but the log and the
issues. -/
theorem exists_performAll_quiet {actions : List Action} (hevents : actionEvents actions = [])
    (s : Session α) (hcancel : s.cancellable = false) :
    ∃ u, s.performAll actions = (u, none) ∧ u.cancellable = false ∧ u.listeners = s.listeners ∧
      u.cancelled = s.cancelled ∧
      u.issues.map Issue.cause = s.issues.map Issue.cause ++ actionCauses actions := by
  induction actions generalizing s with
  | nil => exact ⟨s, rfl, hcancel, rfl, rfl, (List.append_nil _).symm⟩
  | cons action actions ih =>
    unfold performAll
    cases action with
    | deliver event => cases hevents
    | checkpoint =>
      simp only [perform, hcancel, Bool.false_and, Bool.false_eq_true, if_false]
      exact ih hevents s hcancel
    | note remark => exact ih hevents { s with log := s.log.debug remark } hcancel
    | report issue =>
      obtain ⟨u, hperform, hu, hlisteners, hcancelled, hcauses⟩ := ih hevents
        (s.perform (.report issue)).1 hcancel
      refine ⟨u, hperform, hu, hlisteners, hcancelled, ?_⟩
      rw [hcauses, issues_perform, List.map_append, List.append_assoc]
      rfl

/-- Without a token, listeners receive the same of a trace and the parse ends in the same way with
quiet actions in front. Their problems come before those of the trace. -/
theorem performTrace_quiet (s : Session α) (hcancel : s.cancellable = false)
    {actions : List Action} (hevents : actionEvents actions = []) {t t' : Trace} (h : t.Alike t') :
    (s.performTrace (t.prepend actions)).1.listeners = (s.performTrace t').1.listeners ∧
      (s.performTrace (t.prepend actions)).2 = (s.performTrace t').2 ∧
      ∃ others, (s.performTrace (t.prepend actions)).1.issues.map Issue.cause =
          s.issues.map Issue.cause ++ actionCauses actions ++ others ∧
        (s.performTrace t').1.issues.map Issue.cause = s.issues.map Issue.cause ++ others := by
  obtain ⟨u, hperform, hu, hlisteners, hcancelled, hcauses⟩ :=
    exists_performAll_quiet hevents s hcancel
  have hprepend : s.performTrace (t.prepend actions) = u.performTrace t := by
    rw [performTrace, performTrace, Trace.prepend, performAll_append hperform]
  -- both sessions go on alike once their issues are set aside
  have htaken : u.takeIssues.1.Alike s.takeIssues.1 :=
    ⟨hu.trans hcancel.symm, hlisteners, hcancelled, rfl⟩
  obtain ⟨hsession, hresult⟩ := htaken.performTrace h
  rw [hprepend, u.performTrace_takeIssues, s.performTrace_takeIssues]
  refine ⟨hsession.listeners, hresult,
    (s.takeIssues.1.performTrace t').1.issues.map Issue.cause, ?_, ?_⟩
  · rw [issues_withEarlier, List.map_append, hcauses, hsession.causes]
  · rw [issues_withEarlier, List.map_append]

end Markup.Session
