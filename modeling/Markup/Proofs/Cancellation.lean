import Markup.AnyListener
import Markup.Proofs.Reader.Checkpoints
import Markup.Proofs.Reader.Sources
import Markup.Proofs.Session.Interruption
import Markup.Proofs.Session.Passive

/-!
# Cancellation stops delivery

Once the token of a session has been triggered, the session goes on to the next checkpoint of what
it reads and stops there (`Session.hears_of_cancelled`). Checkpoints are so close to each other
(`Reader.paced_read`) that a listener that triggers the token is followed by one more event at most.
Unless something else ends the parse before the checkpoint, its result is `cancelled`
(`cancelled_parse_stops`).
-/

namespace Markup

variable {α : Type} [Listener α]

/-! ## Aborts -/

/-- The last event that a listener received made it abort for a reason. -/
def HasAborted (x : α) (reason : String) : Prop :=
  ∃ y event, (Listener.receive y event).1 = x ∧ (Listener.receive y event).2.abort? = some reason

/-- Whoever aborts while an event is delivered is among the listeners. -/
theorem exists_hasAborted {event : Event} {xs : List α} {reason : String}
    (h : (deliver event xs).2.abort? = some reason) :
    ∃ x ∈ (deliver event xs).1, HasAborted x reason := by
  induction xs with
  | nil => cases h
  | cons x xs ih =>
    unfold deliver at h ⊢
    dsimp only at h ⊢
    split
    · rename_i habort
      rw [habort] at h
      dsimp only at h
      rw [habort] at h
      cases h
      exact ⟨_, List.mem_cons_self, x, event, rfl, habort⟩
    · rename_i habort
      rw [habort] at h
      obtain ⟨y, hy, haborted⟩ := ih h
      exact ⟨y, List.mem_cons_of_mem _ hy, haborted⟩

namespace Session

variable {s t : Session α} {actions : List Action} {error : ParseError}

/-- What ends the performance of actions is the token or a listener. -/
theorem error_performAll (h : s.performAll actions = (t, some error)) :
    error = .cancelled ∨
      ∃ reason, error = .aborted reason ∧ ∃ x ∈ t.listeners, HasAborted x reason := by
  obtain ⟨before, action, after, u, -, -, hlast⟩ := exists_interruption h
  cases action with
  | checkpoint =>
    have herror : (if u.cancellable && u.cancelled then some ParseError.cancelled else none) =
      some error := congrArg Prod.snd hlast
    obtain ⟨-, hcancelled⟩ := Option.ite_none_right_eq_some.1 herror
    exact .inl (Option.some.inj hcancelled).symm
  | deliver event =>
    have herror : (deliver event u.listeners).2.abort?.map ParseError.aborted = some error :=
      congrArg Prod.snd hlast
    obtain ⟨reason, habort, rfl⟩ := Option.map_eq_some_iff.1 herror
    have ht : t = (u.perform (.deliver event)).1 := by rw [hlast]
    rw [ht]
    exact .inr ⟨reason, rfl, exists_hasAborted habort⟩
  | report issue => cases hlast
  | note remark => cases hlast

/-- What the token ends ends at a checkpoint. -/
theorem exists_checkpoint_of_cancelled (h : s.performAll actions = (t, some .cancelled)) :
    ∃ before after, actions = before ++ .checkpoint :: after ∧
      s.performAll before = (t, none) := by
  obtain ⟨before, action, after, u, hactions, hbefore, hlast⟩ := exists_interruption h
  cases action with
  | checkpoint =>
    have ht : u = t := congrArg Prod.fst hlast
    rw [ht] at hbefore
    exact ⟨before, after, hactions, hbefore⟩
  | deliver event =>
    have herror : (deliver event u.listeners).2.abort?.map ParseError.aborted = some .cancelled :=
      congrArg Prod.snd hlast
    obtain ⟨reason, -, haborted⟩ := Option.map_eq_some_iff.1 herror
    cases haborted
  | report issue => cases hlast
  | note remark => cases hlast

/-! ## After the token has been triggered -/

/-- Nothing that a session performs takes its token away. -/
theorem cancellable_performAll (s : Session α) (actions : List Action) :
    (s.performAll actions).1.cancellable = s.cancellable := by
  induction actions generalizing s with
  | nil => rfl
  | cons action actions ih =>
    have hfirst : (s.perform action).1.cancellable = s.cancellable := by cases action <;> rfl
    unfold performAll
    split
    · rename_i u hperform
      rw [hperform] at hfirst
      rw [ih u, hfirst]
    · rename_i u error hperform
      rw [hperform] at hfirst
      exact hfirst

/-- A session whose token has been triggered goes on to the next checkpoint. -/
theorem hears_of_cancelled {s : Session (Recorder α)} (hs : s.cancellable = true)
    (hcancelled : s.cancelled = true) (actions : List Action) :
    List.Forall₂ (Recorder.Hears (· <+: unchecked actions)) s.listeners
        (s.performAll actions).1.listeners ∧
      ((s.performAll actions).2 = none → .checkpoint ∉ actions) := by
  induction actions generalizing s with
  | nil => exact ⟨Recorder.hears_same (List.prefix_refl _), fun _ => List.not_mem_nil⟩
  | cons action actions ih =>
    -- an action without an event changes neither the listeners nor the token
    have hquiet {u : Session (Recorder α)} (hperform : s.perform action = (u, none))
        (hlisteners : u.listeners = s.listeners) (hu : u.cancellable = true)
        (hucancelled : u.cancelled = true) (hne : action ≠ .checkpoint)
        (hunchecked : unchecked (action :: actions) = unchecked actions) :
        List.Forall₂ (Recorder.Hears (· <+: unchecked (action :: actions))) s.listeners
            (s.performAll (action :: actions)).1.listeners ∧
          ((s.performAll (action :: actions)).2 = none → .checkpoint ∉ action :: actions) := by
      obtain ⟨hheard, hnone⟩ := ih hu hucancelled
      rw [performAll, hperform, hunchecked, ← hlisteners]
      exact ⟨hheard, fun h => List.not_mem_cons_of_ne_of_not_mem hne.symm (hnone h)⟩
    cases action with
    | checkpoint =>
      have hperform : s.perform .checkpoint = (s, some .cancelled) := by
        simp only [perform, hs, hcancelled, Bool.and_self, if_true]
      rw [performAll, hperform]
      exact ⟨Recorder.hears_same (List.prefix_refl _), fun h => by cases h⟩
    | deliver event =>
      obtain ⟨hpart, hwhole⟩ := s.hears_perform (.deliver event)
      have hsplit : unchecked (.deliver event :: actions) = [event] ++ unchecked actions := rfl
      rw [performAll, hsplit]
      split
      · rename_i u hperform
        have hu : u = (s.perform (.deliver event)).1 := by rw [hperform]
        have hucancelled : u.cancelled = true := by
          rw [hu]
          simp only [perform, hcancelled, Bool.true_or]
        obtain ⟨hheard, hnone⟩ := ih (by rw [hu]; exact hs) hucancelled
        rw [hperform] at hwhole
        refine ⟨Recorder.Hears.trans (fun a b ha hb => ?_) (hwhole rfl) hheard, fun h => ?_⟩
        · rw [ha]
          exact (List.prefix_append_right_inj _).2 hb
        · exact List.not_mem_cons_of_ne_of_not_mem (by simp) (hnone h)
      · -- an abort ends the parse during the event
        rename_i u error hperform
        rw [hperform] at hpart
        refine ⟨Recorder.Hears.imp (fun a ha => ha.trans (List.prefix_append _ _)) hpart,
          fun h => ?_⟩
        cases h
    | report issue => exact hquiet rfl rfl hs hcancelled (by simp) rfl
    | note remark => exact hquiet rfl rfl hs hcancelled (by simp) rfl

/-- After an event during which a listener triggers the token the session goes on to the next
checkpoint. -/
theorem hears_of_cancels (r : Session (Recorder α)) (hr : r.cancellable = true)
    {u : Session (Recorder α)} {before : List Action} {event : Event}
    (hbefore : r.performAll before = (u, none))
    (hcancels : (deliver event u.listeners).2.cancels = true) (after : List Action) :
    List.Forall₂ (Recorder.Hears (· <+: unchecked after)) (u.perform (.deliver event)).1.listeners
        (r.performAll (before ++ .deliver event :: after)).1.listeners ∧
      ((r.performAll (before ++ .deliver event :: after)).2 = none → .checkpoint ∉ after) := by
  have hu : u.cancellable = true := by
    have h := r.cancellable_performAll before
    rw [hbefore] at h
    rw [h]
    exact hr
  rw [performAll_append hbefore, performAll]
  split
  · rename_i t hperform
    have ht : t = (u.perform (.deliver event)).1 := by rw [hperform]
    rw [← ht]
    refine hears_of_cancelled ?_ ?_ after
    · rw [ht]
      exact hu
    · rw [ht]
      simp only [perform, hcancels, Bool.or_true]
  · rename_i t error hperform
    rw [hperform]
    exact ⟨Recorder.hears_same List.nil_prefix, fun h => by cases h⟩

/-! ## How a parse ends -/

/-- While the session parses a document, a listener triggers the token during the delivery of an
event; `t` is the session right after that delivery. -/
def CancelledAt (s : Session α) (source : Source) (event : Event) (t : Session α) : Prop :=
  ∃ before after u, (Reader.read s.grammar source).actions = before ++ .deliver event :: after ∧
    { s with log := s.log.clear }.performAll before = (u, none) ∧
    (deliver event u.listeners).2.cancels = true ∧ t = (u.perform (.deliver event)).1

/-- How the parse of a document ends. -/
inductive ParseEnds (s : Session (Recorder α)) (source : Source) : Prop
  /-- The token ends it before the end of the document. -/
  | cancelled : (s.parse source).2 = .error .cancelled →
      List.Forall₂ (Recorder.Hears (.finished ∉ ·)) s.listeners (s.parse source).1.listeners →
      ParseEnds s source
  /-- It succeeds, and the end of the document is the last event. -/
  | completed : (s.parse source).2 = .ok () →
      List.Forall₂ (Recorder.Hears (·.getLast? = some .finished)) s.listeners
        (s.parse source).1.listeners → ParseEnds s source
  /-- The source fails before the end of the document. -/
  | unreadable (failure : ReadFailure) : (s.parse source).2 = .error (.unreadable failure) →
      .error failure ∈ source →
      List.Forall₂ (Recorder.Hears (.finished ∉ ·)) s.listeners (s.parse source).1.listeners →
      ParseEnds s source
  /-- A listener aborts it. -/
  | aborted (reason : String) : (s.parse source).2 = .error (.aborted reason) →
      (∃ x ∈ (s.parse source).1.listeners, HasAborted x reason) → ParseEnds s source

/-- Every parse ends in one of these ways. -/
theorem parseEnds (s : Session (Recorder α)) (source : Source) : ParseEnds s source := by
  set r : Session (Recorder α) := { s with log := s.log.clear }
  set trace := Reader.read s.grammar source
  have hparse : s.parse source = r.performTrace trace := rfl
  have hlisteners : (s.parse source).1.listeners = (r.performAll trace.actions).1.listeners := by
    rw [hparse, performTrace_fst]
  obtain ⟨-, hwhole⟩ := r.hears_performAll trace.actions
  rw [← hlisteners] at hwhole
  rcases hperform : r.performAll trace.actions with ⟨t, _ | error⟩
  · -- all actions have been performed, and reading has ended somehow
    rw [hperform] at hwhole
    have hresult : (s.parse source).2 = resultOf trace.outcome := by
      rw [hparse, performTrace, hperform]
      cases trace.outcome <;> rfl
    cases houtcome : trace.outcome with
    | finished =>
      rw [houtcome] at hresult
      obtain ⟨body, causes, d, -, -, -, hevents⟩ := Reader.ends_read houtcome
      refine .completed hresult (Recorder.Hears.imp (fun heard hheard => ?_) (hwhole rfl))
      rw [hheard]
      exact (congrArg List.getLast? hevents).trans List.getLast?_concat
    | failed failure =>
      rw [houtcome] at hresult
      obtain ⟨causes, d, hregular⟩ := Reader.regular_read houtcome
      refine .unreadable failure hresult (Reader.mem_source_of_failed houtcome)
        (Recorder.Hears.imp (fun heard hheard => ?_) (hwhole rfl))
      rw [hheard]
      exact hregular.finished_not_mem
  · -- one of the actions has ended the parse
    have hresult : (s.parse source).2 = .error error := by
      rw [hparse, performTrace, hperform]
    rcases error_performAll hperform with rfl | ⟨reason, rfl, habort⟩
    · obtain ⟨before, after, hactions, hbefore⟩ := exists_checkpoint_of_cancelled hperform
      have hall := (r.hears_performAll before).2
      rw [hbefore] at hall
      refine .cancelled hresult ?_
      rw [hlisteners, hperform]
      refine Recorder.Hears.imp (fun heard hheard => ?_) (hall rfl)
      rw [hheard]
      exact Reader.finished_not_mem_before hactions
    · refine .aborted reason hresult ?_
      rw [hlisteners, hperform]
      exact habort

end Session

/-- A session with a token stops as soon as the token has been triggered. If that is before the
parse, no event is delivered and the parse does not succeed. If a listener does it while an event is
delivered, one more event is delivered at most, and only after text other than the space that does
not break; the parse is cancelled unless one of these two events is the end of the document, the
source fails or a listener aborts it. -/
theorem cancelled_parse_stops (s : Session (Recorder α)) (source : Source)
    (hs : s.cancellable = true) :
    (s.cancelled = true →
      List.Forall₂ (Recorder.Hears (· = [])) s.listeners (s.parse source).1.listeners ∧
        (s.parse source).2 ≠ .ok ()) ∧
      ∀ event t, s.CancelledAt source event t →
        (∃ further, further.length ≤ 1 ∧ (further ≠ [] → event.isText = true) ∧
          List.Forall₂ (Recorder.Hears (· <+: further)) t.listeners (s.parse source).1.listeners ∧
          ((s.parse source).2 = .ok () → event = .finished ∨ further = [.finished])) ∧
        s.ParseEnds source := by
  set r : Session (Recorder α) := { s with log := s.log.clear }
  set trace := Reader.read s.grammar source
  have hlisteners : (s.parse source).1.listeners = (r.performAll trace.actions).1.listeners := by
    rw [← Session.performTrace_fst]
    rfl
  have hpaced : Paced .nothing trace.actions := Reader.paced_read _ _
  refine ⟨fun hcancelled => ?_, fun event t hat => ⟨?_, s.parseEnds source⟩⟩
  · obtain ⟨hheard, hcheckpoint⟩ := Session.hears_of_cancelled (s := r) hs hcancelled trace.actions
    rw [hlisteners]
    refine ⟨Recorder.Hears.imp (fun heard hheard => ?_) hheard, fun hok => ?_⟩
    · rw [hpaced.unchecked_eq] at hheard
      exact List.prefix_nil.1 hheard
    · -- a reading that gets to its end passes a checkpoint
      obtain ⟨hnone, hfinished⟩ := Session.completed_of_ok (s := r) (t := trace) hok
      obtain ⟨actions, hactions, hmem, -⟩ := Reader.exists_actions_of_finished hfinished
      refine hcheckpoint hnone ?_
      rw [hactions]
      exact List.mem_append_left _ hmem
  · obtain ⟨before, after, u, hactions, hbefore, hcancels, rfl⟩ := hat
    rw [show trace.actions = _ from hactions] at hpaced hlisteners
    obtain ⟨hlength, htext⟩ := hpaced.after_event
    obtain ⟨hheard, hcheckpoint⟩ := r.hears_of_cancels hs hbefore hcancels after
    refine ⟨unchecked after, hlength, htext, ?_, fun hok => ?_⟩
    · rw [hlisteners]
      exact hheard
    · obtain ⟨hnone, hfinished⟩ := Session.completed_of_ok (s := r) (t := trace) hok
      rw [show trace.actions = _ from hactions] at hnone
      exact Reader.finished_of_not_mem hactions hfinished (hcheckpoint hnone)

/-- Memos are elements with text. -/
def memos : Grammar where
  dtd := (Dtd.ofRoot "M").addElement (.ofName "M" .pcdata)
  dialect := .strict

/-- A listener that triggers the token at the first text, and a collector after it. -/
def memoSession : Session (Recorder AnyListener) :=
  (Session.start memos [.breakpoint ⟨.characterData, 1, 0, .cancel⟩, .collector .empty]
    true).recording

/-- A memo is cancelled while its text is delivered, and another before it is parsed. -/
theorem cancelled_parse_stops_memo :
    (memoSession.cancellable = true ∧ ∃ t, memoSession.CancelledAt (.ofText "<M>ab</M>")
        (.characterData "ab" false) t ∧
      ∃ further : List Event, further.length ≤ 1 ∧
        List.Forall₂ (Recorder.Hears (· <+: further)) t.listeners
          (memoSession.parse (.ofText "<M>ab</M>")).1.listeners) ∧
      memoSession.cancel.cancelled = true ∧
        (memoSession.cancel.parse (.ofText "<M>ab</M>")).2 ≠ .ok () := by
  have hrun : Reader.read memos (.ofText "<M>ab</M>") =
      ⟨[.checkpoint, .checkpoint, .deliver (.startTag (.ofName "M" .pcdata) .empty), .checkpoint,
        .checkpoint] ++ .deliver (.characterData "ab" false) ::
          [.deliver (.endTag (.ofName "M" .pcdata)), .checkpoint, .deliver .finished],
        .finished⟩ := by
    apply Reader.run_of_runWithin (n := 20)
    decide +kernel
  have hat : memoSession.CancelledAt (.ofText "<M>ab</M>") (.characterData "ab" false) _ :=
    ⟨_, _, _, congrArg Trace.actions hrun, rfl, rfl, rfl⟩
  obtain ⟨further, hlength, -, hheard, -⟩ :=
    ((cancelled_parse_stops memoSession (.ofText "<M>ab</M>") rfl).2 _ _ hat).1
  exact ⟨⟨rfl, _, hat, further, hlength, hheard⟩, rfl,
    ((cancelled_parse_stops memoSession.cancel (.ofText "<M>ab</M>") rfl).1 rfl).2⟩

end Markup
