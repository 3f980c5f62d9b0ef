import Mathlib.Data.List.Forall2
import Markup.Proofs.Events.Operations
import Markup.Session

/-!
# What a listener hears

A `Recorder` puts a record of the events beside any listener, and a session behaves the same with
or without the record (`parse_unrecorded`). Each listener of a session hears the events of the
actions that are performed, in order, up to the point where one of the listeners aborts or the parse
is cancelled (`hears_performAll`).
-/

namespace Markup

/-- Listeners that change twice, one by one. -/
theorem forall₂_trans {α : Type} {P Q R : α → α → Prop} (hPQ : ∀ x y z, P x y → Q y z → R x z)
    {xs ys zs : List α} (h : List.Forall₂ P xs ys) (h' : List.Forall₂ Q ys zs) :
    List.Forall₂ R xs zs := by
  induction h generalizing zs with
  | nil =>
    cases h'
    exact .nil
  | cons hx _ ih =>
    cases h' with
    | cons hy h' => exact .cons (hPQ _ _ _ hx hy) (ih h')

/-- A listener with a record of what it has heard. -/
structure Recorder (α : Type) where
  /-- The listener. -/
  listener : α
  /-- The events, the last one first. -/
  heard : List Event

namespace Recorder

/-- The events in the order in which they were heard. -/
def events {α : Type} (r : Recorder α) : List Event :=
  r.heard.reverse

instance {α : Type} [Listener α] : Listener (Recorder α) where
  receive r event :=
    let (listener, reaction) := Listener.receive r.listener event
    (⟨listener, event :: r.heard⟩, reaction)

/-- Between two moments a listener hears events of which `P` holds. -/
def Hears {α : Type} (P : List Event → Prop) (before after : Recorder α) : Prop :=
  ∃ heard, after.events = before.events ++ heard ∧ P heard

section

variable {α : Type} {P Q R : List Event → Prop} {xs ys zs : List (Recorder α)}

/-- Where nothing happens nothing is heard. -/
theorem hears_same (h : P []) : List.Forall₂ (Hears P) xs xs :=
  List.forall₂_same.2 fun _ _ => ⟨[], (List.append_nil _).symm, h⟩

/-- What is heard in two stretches of time. -/
theorem Hears.trans (hPQ : ∀ a b, P a → Q b → R (a ++ b)) (h : List.Forall₂ (Hears P) xs ys)
    (h' : List.Forall₂ (Hears Q) ys zs) : List.Forall₂ (Hears R) xs zs := by
  refine forall₂_trans (fun x y z hx hy => ?_) h h'
  obtain ⟨a, ha, hP⟩ := hx
  obtain ⟨b, hb, hQ⟩ := hy
  exact ⟨a ++ b, by rw [hb, ha, List.append_assoc], hPQ a b hP hQ⟩

/-- What is heard may be known by less. -/
theorem Hears.imp (hPQ : ∀ events, P events → Q events) (h : List.Forall₂ (Hears P) xs ys) :
    List.Forall₂ (Hears Q) xs ys :=
  List.Forall₂.imp (fun _ _ ⟨heard, happend, hP⟩ => ⟨heard, happend, hPQ heard hP⟩) h

end

end Recorder

open Recorder

variable {α : Type} [Listener α]

/-! ## What is heard -/

/-- An event is heard by the listeners up to the first that aborts. -/
theorem hears_deliver (event : Event) (xs : List (Recorder α)) :
    List.Forall₂ (Hears (· <+: [event])) xs (deliver event xs).1 ∧
      ((deliver event xs).2.abort? = none →
        List.Forall₂ (Hears (· = [event])) xs (deliver event xs).1) := by
  induction xs with
  | nil => exact ⟨.nil, fun _ => .nil⟩
  | cons x xs ih =>
    have hfirst {P : List Event → Prop} (h : P [event]) :
        Hears P x (Listener.receive x event).1 :=
      ⟨[event], List.reverse_cons, h⟩
    -- a listener that aborts has heard the event, and those after it have not
    unfold deliver
    dsimp only
    split
    · rename_i habort
      refine ⟨.cons (hfirst (List.prefix_refl _)) (hears_same (List.nil_prefix)), fun hnone => ?_⟩
      rw [habort] at hnone
      cases hnone
    · exact ⟨.cons (hfirst (List.prefix_refl _)) ih.1, fun hnone => .cons (hfirst rfl) (ih.2 hnone)⟩

namespace Session

/-- Of an action each listener hears the event or, if the parse ends there, perhaps nothing. -/
theorem hears_perform (s : Session (Recorder α)) (action : Action) :
    List.Forall₂ (Hears (· <+: actionEvents [action])) s.listeners (s.perform action).1.listeners ∧
      ((s.perform action).2 = none →
        List.Forall₂ (Hears (· = actionEvents [action])) s.listeners
          (s.perform action).1.listeners) := by
  cases action with
  | deliver event =>
    obtain ⟨hpart, hwhole⟩ := hears_deliver event s.listeners
    refine ⟨hpart, fun hnone => hwhole ?_⟩
    simpa [perform] using hnone
  | checkpoint => exact ⟨hears_same List.nil_prefix, fun _ => hears_same rfl⟩
  | report issue => exact ⟨hears_same List.nil_prefix, fun _ => hears_same rfl⟩
  | note remark => exact ⟨hears_same List.nil_prefix, fun _ => hears_same rfl⟩

/-- The events of actions are heard in order, all of them unless an error ends the parse. -/
theorem hears_performAll (s : Session (Recorder α)) (actions : List Action) :
    List.Forall₂ (Hears (· <+: actionEvents actions)) s.listeners
        (s.performAll actions).1.listeners ∧
      ((s.performAll actions).2 = none →
        List.Forall₂ (Hears (· = actionEvents actions)) s.listeners
          (s.performAll actions).1.listeners) := by
  induction actions generalizing s with
  | nil => exact ⟨hears_same List.nil_prefix, fun _ => hears_same rfl⟩
  | cons action actions ih =>
    obtain ⟨hpart, hwhole⟩ := s.hears_perform action
    have hsplit : actionEvents (action :: actions) =
        actionEvents [action] ++ actionEvents actions :=
      actionEvents_append [action] actions
    rw [hsplit]
    unfold performAll
    split
    · rename_i t hperform
      rw [hperform] at hwhole
      refine ⟨Hears.trans (fun a b ha hb => ?_) (hwhole rfl) (ih t).1, fun hnone => ?_⟩
      · rw [ha]
        exact (List.prefix_append_right_inj _).2 hb
      · refine Hears.trans (fun a b ha hb => ?_) (hwhole rfl) ((ih t).2 hnone)
        rw [ha, hb]
    · -- after an error the other actions are not performed
      rename_i t error hperform
      rw [hperform] at hpart
      refine ⟨Hears.imp (fun events hevents => hevents.trans (List.prefix_append _ _)) hpart,
        fun hok => ?_⟩
      cases hok

/-- What each listener hears of a trace. -/
theorem hears_performTrace (s : Session (Recorder α)) (t : Trace) :
    List.Forall₂ (Hears (· <+: t.events)) s.listeners (s.performTrace t).1.listeners ∧
      ((s.performTrace t).2 = .ok () → t.outcome = .finished ∧
        List.Forall₂ (Hears (· = t.events)) s.listeners (s.performTrace t).1.listeners) := by
  obtain ⟨hpart, hwhole⟩ := s.hears_performAll t.actions
  unfold performTrace
  split
  · rename_i hperform
    rw [hperform] at hpart
    refine ⟨hpart, fun hok => ?_⟩
    cases hok
  · rename_i hperform
    rw [hperform] at hpart hwhole
    split
    · rename_i hfinished
      exact ⟨hpart, fun _ => ⟨hfinished, hwhole rfl⟩⟩
    · refine ⟨hpart, fun hok => ?_⟩
      cases hok

/-! ## Leaving the record out -/

/-- The session without the records of its listeners. -/
def unrecorded (s : Session (Recorder α)) : Session α :=
  { s with listeners := s.listeners.map Recorder.listener }

/-- An event gets to the same listeners without records. -/
theorem deliver_unrecorded (event : Event) (xs : List (Recorder α)) :
    deliver event (xs.map Recorder.listener) =
      ((deliver event xs).1.map Recorder.listener, (deliver event xs).2) := by
  induction xs with
  | nil => rfl
  | cons x xs ih =>
    have hreaction : (Listener.receive x event).2 = (Listener.receive x.listener event).2 := rfl
    simp only [List.map_cons, deliver, ih, hreaction]
    split <;> rfl

/-- An action does the same without records. -/
theorem perform_unrecorded (s : Session (Recorder α)) (action : Action) :
    s.unrecorded.perform action = ((s.perform action).1.unrecorded, (s.perform action).2) := by
  cases action with
  | deliver event =>
    simp only [perform]
    show _ = ({ s.unrecorded with
      listeners := (deliver event s.listeners).1.map Recorder.listener
      cancelled := s.cancelled || (deliver event s.listeners).2.cancels }, _)
    rw [show s.unrecorded.listeners = s.listeners.map Recorder.listener from rfl,
      deliver_unrecorded]
    rfl
  | checkpoint => rfl
  | report issue => rfl
  | note remark => rfl

/-- Actions do the same without records. -/
theorem performAll_unrecorded (s : Session (Recorder α)) (actions : List Action) :
    s.unrecorded.performAll actions =
      ((s.performAll actions).1.unrecorded, (s.performAll actions).2) := by
  induction actions generalizing s with
  | nil => rfl
  | cons action actions ih =>
    rw [performAll, performAll, perform_unrecorded]
    rcases s.perform action with ⟨t, error?⟩
    cases error? with
    | none => exact ih t
    | some error => rfl

/-- A session does the same with and without records. -/
theorem parse_unrecorded (s : Session (Recorder α)) (source : Source) :
    s.unrecorded.parse source = ((s.parse source).1.unrecorded, (s.parse source).2) := by
  have hactions := performAll_unrecorded { s with log := s.log.clear }
    (Reader.read s.grammar source).actions
  unfold parse performTrace
  rw [show ({ s.unrecorded with log := s.unrecorded.log.clear } : Session α) =
      unrecorded { s with log := s.log.clear } from rfl,
    show s.unrecorded.grammar = s.grammar from rfl, hactions]
  rcases ({ s with log := s.log.clear } : Session (Recorder α)).performAll
    (Reader.read s.grammar source).actions with ⟨t, error?⟩
  cases error? with
  | some error => rfl
  | none => cases (Reader.read s.grammar source).outcome <;> rfl

end Session

end Markup
