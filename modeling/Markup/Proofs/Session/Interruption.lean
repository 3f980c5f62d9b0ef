import Markup.Proofs.Session.Recorder

/-!
# Parses that end early

A parse ends early at one of its actions: a checkpoint finds that it has been cancelled, or a
listener aborts it. Up to there all actions have been performed for all listeners
(`exists_interruption`), so the issues that have been recorded are the first ones
(`issues_performAll`), and the listeners have heard the same, except that those before the one that
aborts have heard one event more than those after it (`inTurn_performAll`).

`Session.heard` is what each listener of a session hears of a parse.
-/

namespace Markup

variable {α : Type}

/-! ## One listener ahead of another -/

/-- One listener has heard as many events as another, or one more. -/
def Leads (earlier later : List Event) : Prop :=
  later.length ≤ earlier.length ∧ earlier.length ≤ later.length + 1

/-- The earlier of two listeners has heard as many events as the later, or one more. -/
def Recorder.InTurn (xs : List (Recorder α)) : Prop :=
  xs.Pairwise fun earlier later => Leads earlier.events later.events

/-- Recorders that have heard equally much are in turn. -/
theorem Recorder.inTurn_of_same {xs : List (Recorder α)} {n : Nat}
    (h : ∀ x ∈ xs, x.events.length = n) : InTurn xs := by
  refine List.pairwise_of_forall_mem_list fun x hx y hy => ?_
  have hxn := h x hx
  have hyn := h y hy
  exact ⟨by omega, by omega⟩

variable [Listener α]

/-- An event gets to one listener after another. -/
theorem inTurn_deliver (event : Event) {xs : List (Recorder α)} {n : Nat}
    (h : ∀ x ∈ xs, x.events.length = n) :
    (∀ x ∈ (deliver event xs).1, x.events.length = n ∨ x.events.length = n + 1) ∧
      Recorder.InTurn (deliver event xs).1 := by
  induction xs with
  | nil => exact ⟨List.forall_mem_nil _, .nil⟩
  | cons x xs ih =>
    have hx : (Listener.receive x event).1.events.length = n + 1 := by
      have hheard : (Listener.receive x event).1.events = x.events ++ [event] := List.reverse_cons
      rw [hheard, List.length_append, h x List.mem_cons_self]
      rfl
    have hxs : ∀ y ∈ xs, y.events.length = n := fun y hy => h y (List.mem_cons_of_mem _ hy)
    -- whoever comes after the first listener has heard `n` events or `n + 1`
    have hfirst {ys : List (Recorder α)}
        (hys : ∀ y ∈ ys, y.events.length = n ∨ y.events.length = n + 1)
        (hturn : Recorder.InTurn ys) :
        (∀ y ∈ (Listener.receive x event).1 :: ys,
            y.events.length = n ∨ y.events.length = n + 1) ∧
          Recorder.InTurn ((Listener.receive x event).1 :: ys) := by
      refine ⟨List.forall_mem_cons.2 ⟨.inr hx, hys⟩, List.pairwise_cons.2 ⟨fun y hy => ?_, hturn⟩⟩
      have hyn := hys y hy
      exact ⟨by omega, by omega⟩
    unfold deliver
    dsimp only
    split
    · exact hfirst (fun y hy => .inl (hxs y hy)) (Recorder.inTurn_of_same hxs)
    · exact hfirst (ih hxs).1 (ih hxs).2

namespace Session

variable {s t : Session α} {actions : List Action} {error : ParseError}

/-! ## Where a parse ends early -/

/-- After actions that have all been performed others are performed as on their own. -/
theorem performAll_append (h : s.performAll actions = (t, none)) (more : List Action) :
    s.performAll (actions ++ more) = t.performAll more := by
  induction actions generalizing s with
  | nil =>
    cases h
    rfl
  | cons action actions ih =>
    rw [List.cons_append, performAll]
    rw [performAll] at h
    rcases hperform : s.perform action with ⟨u, error?⟩
    rw [hperform] at h
    cases error? with
    | none => exact ih h
    | some error => cases h

/-- What ends a parse early is one of its actions, after all actions before it. -/
theorem exists_interruption (h : s.performAll actions = (t, some error)) :
    ∃ before action after u, actions = before ++ action :: after ∧
      s.performAll before = (u, none) ∧ u.perform action = (t, some error) := by
  induction actions generalizing s with
  | nil => cases h
  | cons action actions ih =>
    unfold performAll at h
    rcases hperform : s.perform action with ⟨u, error?⟩
    rw [hperform] at h
    cases error? with
    | none =>
      obtain ⟨before, next, after, v, hactions, hbefore, hnext⟩ := ih h
      refine ⟨action :: before, next, after, v, by rw [hactions]; rfl, ?_, hnext⟩
      unfold performAll
      rw [hperform]
      exact hbefore
    | some error =>
      cases h
      exact ⟨[], action, actions, s, rfl, rfl, hperform⟩

/-- Issues are recorded one after another. -/
theorem issues_perform (s : Session α) (action : Action) :
    (s.perform action).1.issues = s.issues ++ action.issue?.toList := by
  cases action with
  | report issue => exact List.reverse_cons
  | checkpoint => exact (List.append_nil _).symm
  | deliver event => exact (List.append_nil _).symm
  | note remark => exact (List.append_nil _).symm

/-- The issues of actions are recorded in order, all of them unless an error ends the parse. -/
theorem issues_performAll (s : Session α) (actions : List Action) :
    ∃ recorded, (s.performAll actions).1.issues = s.issues ++ recorded ∧
      recorded <+: actions.filterMap Action.issue? ∧
      ((s.performAll actions).2 = none → recorded = actions.filterMap Action.issue?) := by
  induction actions generalizing s with
  | nil => exact ⟨[], (List.append_nil _).symm, List.prefix_refl _, fun _ => rfl⟩
  | cons action actions ih =>
    have hissues := s.issues_perform action
    have hsplit : (action :: actions).filterMap Action.issue? =
        action.issue?.toList ++ actions.filterMap Action.issue? := by
      cases haction : action.issue? with
      | none => exact List.filterMap_cons_none haction
      | some issue => exact List.filterMap_cons_some haction
    rw [hsplit]
    unfold performAll
    split
    · rename_i t hperform
      rw [hperform] at hissues
      obtain ⟨recorded, hrecorded, hpart, hwhole⟩ := ih t
      refine ⟨action.issue?.toList ++ recorded, ?_, ?_, fun hnone => ?_⟩
      · rw [hrecorded, hissues, List.append_assoc]
      · exact (List.prefix_append_right_inj _).2 hpart
      · rw [hwhole hnone]
    · rename_i t error hperform
      rw [hperform] at hissues
      exact ⟨_, hissues, List.prefix_append _ _, fun hnone => by cases hnone⟩

/-- Performing a trace leaves what performing its actions leaves. -/
theorem performTrace_fst (s : Session α) (t : Trace) :
    (s.performTrace t).1 = (s.performAll t.actions).1 := by
  unfold performTrace
  split
  · rename_i h
    rw [h]
  · rename_i h
    rw [h]
    cases t.outcome with
    | finished => rfl
    | failed failure => rfl

/-- A trace is performed without an error if all its actions are and reading gets to the end. -/
theorem completed_of_ok {s : Session α} {t : Trace} (h : (s.performTrace t).2 = .ok ()) :
    (s.performAll t.actions).2 = none ∧ t.outcome = .finished := by
  unfold performTrace at h
  split at h
  · cases h
  · rename_i hperform
    rw [hperform]
    cases houtcome : t.outcome with
    | finished => exact ⟨rfl, rfl⟩
    | failed failure =>
      rw [houtcome] at h
      cases h

/-! ## What is heard of a parse -/

/-- The session with an empty record beside each listener. -/
def recording (s : Session α) : Session (Recorder α) :=
  { s with listeners := s.listeners.map fun x => ⟨x, []⟩ }

/-- What each listener hears of a parse, in the order of their registration. -/
def heard (s : Session α) (source : Source) : List (List Event) :=
  (s.recording.parse source).1.listeners.map Recorder.events

omit [Listener α] in
/-- The records do not change the session. -/
theorem unrecorded_recording (s : Session α) : s.recording.unrecorded = s := by
  have hlisteners : (s.listeners.map fun x => (⟨x, []⟩ : Recorder α)).map Recorder.listener =
      s.listeners := by
    rw [List.map_map]
    exact List.map_id _
  show ({ s with listeners := (s.listeners.map _).map Recorder.listener } : Session α) = s
  rw [hlisteners]

/-- A parse for recording listeners is the parse for the listeners themselves. -/
theorem parse_recording (s : Session α) (source : Source) :
    s.parse source = ((s.recording.parse source).1.unrecorded, (s.recording.parse source).2) := by
  have h := s.recording.parse_unrecorded source
  rwa [unrecorded_recording] at h

/-- As many listeners are left after actions as there were before. -/
theorem length_listeners_performAll (s : Session (Recorder α)) (actions : List Action) :
    (s.performAll actions).1.listeners.length = s.listeners.length :=
  ((s.hears_performAll actions).1.length_eq).symm

omit [Listener α] in
/-- What listeners with empty records have heard in the end. -/
theorem forall_of_hears {P : List Event → Prop} {xs ys : List (Recorder α)}
    (h : List.Forall₂ (Recorder.Hears P) xs ys) (hxs : ∀ x ∈ xs, x.events = []) :
    ∀ y ∈ ys, P y.events := by
  induction h with
  | nil => exact List.forall_mem_nil _
  | cons hfirst _ ih =>
    obtain ⟨hx, hxs⟩ := List.forall_mem_cons.1 hxs
    obtain ⟨events, hevents, hP⟩ := hfirst
    rw [hx, List.nil_append] at hevents
    refine List.forall_mem_cons.2 ⟨?_, ih hxs⟩
    rw [hevents]
    exact hP

/-- Listeners that have heard nothing hear actions in turn. -/
theorem inTurn_performAll {s : Session (Recorder α)} (hs : ∀ x ∈ s.listeners, x.events = [])
    (actions : List Action) : Recorder.InTurn (s.performAll actions).1.listeners := by
  have hsame {t : Session (Recorder α)} {performed : List Action}
      (h : s.performAll performed = (t, none)) :
      ∀ x ∈ t.listeners, x.events.length = (actionEvents performed).length := by
    have hall := (s.hears_performAll performed).2
    rw [h] at hall
    intro x hx
    rw [forall_of_hears (hall rfl) hs x hx]
  rcases hperform : s.performAll actions with ⟨t, error?⟩
  cases error? with
  | none => exact Recorder.inTurn_of_same (hsame hperform)
  | some error =>
    -- before the last action all listeners have heard the same
    obtain ⟨before, action, after, u, -, hbefore, hlast⟩ := exists_interruption hperform
    have ht : t = (u.perform action).1 := by rw [hlast]
    rw [ht]
    cases action with
    | deliver event => exact (inTurn_deliver event (hsame hbefore)).2
    | checkpoint => exact Recorder.inTurn_of_same (hsame hbefore)
    | report issue => cases hlast
    | note remark => cases hlast

end Session

end Markup
