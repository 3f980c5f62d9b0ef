import Markup.Proofs.Events.Nested
import Markup.Proofs.Reader.Delivery

/-!
# Checkpoints between events

A reading that has been cancelled stops at the next checkpoint, so what it still delivers is what
comes before that (`unchecked`). `Paced` says how much this can be: no event is delivered before the
first checkpoint, and only one between two checkpoints, or a text and the event after it. Every deed
of the reader is paced (`Deed.paced`), and so is a whole reading (`paced_read`).
-/

namespace Markup

/-- Whether an event is text other than the space that does not break. -/
def Event.isText : Event → Bool
  | .characterData _ false => true
  | _ => false

/-- What may be delivered before the next checkpoint. -/
inductive Allowance where
  /-- No event. -/
  | nothing
  /-- One event that is not text. -/
  | nonText
  /-- One event, and another one after text. -/
  | any
  deriving DecidableEq

/-- What may be delivered after an action, if the action may come at all. -/
def Allowance.after : Allowance → Action → Option Allowance
  | _, .checkpoint => some .any
  | .nothing, .deliver _ => none
  | .nonText, .deliver event => if event.isText then none else some .nothing
  | .any, .deliver event => some (if event.isText then .nonText else .nothing)
  | allowance, _ => some allowance

/-- Actions deliver no more between checkpoints than they may. -/
def Paced : Allowance → List Action → Prop
  | _, [] => True
  | allowance, action :: actions => ∃ rest, allowance.after action = some rest ∧ Paced rest actions

/-- The events that actions deliver before their first checkpoint. -/
def unchecked : List Action → List Event
  | [] => []
  | .checkpoint :: _ => []
  | .deliver event :: actions => event :: unchecked actions
  | _ :: actions => unchecked actions

/-- Without a checkpoint all events count. -/
theorem unchecked_of_not_mem {actions : List Action} (h : .checkpoint ∉ actions) :
    unchecked actions = actionEvents actions := by
  induction actions with
  | nil => rfl
  | cons action actions ih =>
    rw [List.mem_cons, not_or] at h
    have hrest := ih h.2
    cases action with
    | checkpoint => exact absurd rfl h.1
    | deliver event => exact congrArg (event :: ·) hrest
    | report issue => exact hrest
    | note remark => exact hrest

/-- A checkpoint allows an event, and another one after text. -/
theorem Allowance.after_checkpoint (allowance : Allowance) :
    allowance.after .checkpoint = some .any := by
  cases allowance <;> rfl

/-- What delivers nothing leaves what is allowed as it was, unless it is a checkpoint. -/
theorem Allowance.after_quiet (allowance : Allowance) {action : Action}
    (hcheckpoint : action ≠ .checkpoint) (h : action.event? = none) :
    allowance.after action = some allowance := by
  cases action with
  | checkpoint => exact absurd rfl hcheckpoint
  | deliver event => cases h
  | report issue => cases allowance <;> rfl
  | note remark => cases allowance <;> rfl

namespace Paced

variable {allowance : Allowance} {actions more : List Action} {event : Event}

/-- Actions that may deliver nothing at first may come at any time. -/
theorem weaken (h : Paced .nothing actions) (allowance : Allowance) : Paced allowance actions := by
  induction actions with
  | nil => trivial
  | cons action actions ih =>
    obtain ⟨rest, hrest, h⟩ := h
    cases action with
    | checkpoint =>
      cases hrest
      exact ⟨.any, allowance.after_checkpoint, h⟩
    | deliver event => cases hrest
    | report issue =>
      cases hrest
      exact ⟨allowance, allowance.after_quiet (by simp) rfl, ih h⟩
    | note remark =>
      cases hrest
      exact ⟨allowance, allowance.after_quiet (by simp) rfl, ih h⟩

/-- Actions that look at the flag before each of their events can follow any others. -/
theorem append (h : Paced allowance actions) (hmore : Paced .nothing more) :
    Paced allowance (actions ++ more) := by
  induction actions generalizing allowance with
  | nil => exact hmore.weaken allowance
  | cons action actions ih =>
    obtain ⟨rest, hrest, h⟩ := h
    exact ⟨rest, hrest, ih h⟩

/-- A part from the start delivers no more. -/
theorem of_append (h : Paced allowance (actions ++ more)) : Paced allowance actions := by
  induction actions generalizing allowance with
  | nil => trivial
  | cons action actions ih =>
    obtain ⟨rest, hrest, h⟩ := h
    exact ⟨rest, hrest, ih h⟩

/-- Something is allowed after any part from the start. -/
theorem exists_of_append (h : Paced allowance (actions ++ more)) : ∃ rest, Paced rest more := by
  induction actions generalizing allowance with
  | nil => exact ⟨allowance, h⟩
  | cons action actions ih =>
    obtain ⟨rest, -, h⟩ := h
    exact ih h

/-- Actions without events. -/
theorem of_quiet (h : actionEvents actions = []) : Paced allowance actions := by
  induction actions generalizing allowance with
  | nil => trivial
  | cons action actions ih =>
    by_cases hcheckpoint : action = .checkpoint
    · rw [hcheckpoint] at h ⊢
      exact ⟨.any, allowance.after_checkpoint, ih h⟩
    · have hnone : action.event? = none := by
        cases action with
        | deliver event => cases h
        | _ => rfl
      rw [actionEvents, List.filterMap_cons_none hnone] at h
      exact ⟨allowance, allowance.after_quiet hcheckpoint hnone, ih h⟩

/-- Nothing is delivered before the first checkpoint. -/
theorem unchecked_eq (h : Paced .nothing actions) : unchecked actions = [] := by
  induction actions with
  | nil => rfl
  | cons action actions ih =>
    obtain ⟨rest, hrest, h⟩ := h
    cases action with
    | checkpoint => rfl
    | deliver event => cases hrest
    | report issue =>
      cases hrest
      exact ih h
    | note remark =>
      cases hrest
      exact ih h

/-- After text at most one event is delivered before the next checkpoint. -/
theorem length_unchecked_le (h : Paced .nonText actions) : (unchecked actions).length ≤ 1 := by
  induction actions with
  | nil => exact Nat.zero_le 1
  | cons action actions ih =>
    obtain ⟨rest, hrest, h⟩ := h
    cases action with
    | checkpoint => exact Nat.zero_le 1
    | deliver event =>
      obtain ⟨-, hnothing⟩ := Option.ite_none_left_eq_some.1 hrest
      cases hnothing
      simp [unchecked, h.unchecked_eq]
    | report issue =>
      cases hrest
      exact ih h
    | note remark =>
      cases hrest
      exact ih h

/-- After an event at most one more is delivered before the next checkpoint, and only after text. -/
theorem after_event {before after : List Action}
    (h : Paced allowance (before ++ .deliver event :: after)) :
    (unchecked after).length ≤ 1 ∧ (unchecked after ≠ [] → event.isText = true) := by
  obtain ⟨allowed, rest, hrest, hafter⟩ := h.exists_of_append
  have hnothing (hafter : Paced .nothing after) :
      (unchecked after).length ≤ 1 ∧ (unchecked after ≠ [] → event.isText = true) := by
    rw [hafter.unchecked_eq]
    exact ⟨Nat.zero_le 1, fun hne => absurd rfl hne⟩
  cases allowed with
  | nothing => cases hrest
  | nonText =>
    obtain ⟨-, hrest⟩ := Option.ite_none_left_eq_some.1 hrest
    cases hrest
    exact hnothing hafter
  | any =>
    by_cases htext : event.isText = true
    · simp only [Allowance.after, if_pos htext] at hrest
      cases hrest
      exact ⟨hafter.length_unchecked_le, fun _ => htext⟩
    · simp only [Allowance.after, if_neg htext] at hrest
      cases hrest
      exact hnothing hafter

end Paced

/-! ## Operations on a document -/

namespace Document

variable {event : Event}

/-- After the text of a document one event may be delivered that is not text. -/
theorem paced_textActions (d : Document) (line : Nat) (content : ContentType) (text : String)
    (h : event.isText = false) :
    Paced .any (d.textActions line content text ++ [.deliver event]) := by
  have hlast : Paced .any [.deliver event] := ⟨_, rfl, trivial⟩
  have hboth : Paced .any ([.deliver (.characterData text false)] ++ [.deliver event]) := by
    refine ⟨.nonText, rfl, .nothing, ?_, trivial⟩
    exact if_neg (by rw [h]; exact Bool.false_ne_true)
  unfold textActions
  split
  · exact hlast
  · split
    · split
      · exact hlast
      · exact hboth
    · split
      · exact hboth
      · split
        · exact hlast
        · exact ⟨.any, rfl, hlast⟩

/-- A flush and an event that is not text. -/
theorem paced_flushAs (d : Document) (line : Nat) (content : ContentType) (beforeEnd : Bool)
    (h : event.isText = false) :
    Paced .nothing ((d.flushAs line content beforeEnd).2 ++ [.deliver event]) :=
  ⟨.any, rfl, d.paced_textActions line content _ h⟩

/-- The flag is looked at before the text that is flushed, and the space may follow at once. -/
theorem paced_space (d : Document) (line : Nat) : Paced .nothing (d.space line).2 := by
  have hspace : Paced .nothing
      ((d.flush line false).2 ++ [.deliver (.characterData " " true)]) :=
    d.paced_flushAs line d.elements.content false rfl
  rw [space_eq]
  split
  · exact hspace
  · exact hspace.of_append

/-- The flag is looked at before a start tag and the text flushed for it. -/
theorem paced_openElement (d : Document) (line : Nat) (e : Element) (attributes : Attributes) :
    Paced .nothing (d.openElement line e attributes).2 :=
  d.paced_flushAs line d.elements.content false rfl

/-- The flag is looked at before an end tag and the text flushed for it. -/
theorem paced_closeCurrent (d : Document) (line : Nat) :
    Paced .nothing (d.closeCurrent line).2 := by
  cases hcurrent : d.elements.current? with
  | none =>
    simp only [closeCurrent, hcurrent]
    trivial
  | some e =>
    rw [closeCurrent_eq line hcurrent]
    exact d.paced_flushAs line d.elements.content true rfl

/-- The flag is looked at before each of several end tags, whatever else is reported with them. -/
theorem paced_closeMany {remark : Element → List Action}
    (hremark : ∀ e, actionEvents (remark e) = []) (line n : Nat) (d : Document) :
    Paced .nothing (closeMany remark line n d).2 := by
  induction n generalizing d with
  | zero => trivial
  | succ n ih =>
    have hremarks : actionEvents ((d.elements.current?.map remark).getD []) = [] := by
      cases d.elements.current? with
      | none => rfl
      | some e => exact hremark e
    simp only [closeMany]
    exact ((Paced.of_quiet hremarks).append (d.paced_closeCurrent line)).append (ih _)

/-- The flag is looked at before each end tag that one in the source stands for. -/
theorem paced_closeElement (d : Document) (line : Nat) (name : Name) :
    Paced .nothing (d.closeElement line name).2 := by
  unfold closeElement
  split
  · exact paced_closeMany (fun _ => rfl) line _ d
  · exact .of_quiet rfl

/-- The flag is looked at before each end tag that is inferred to make room. -/
theorem paced_makeRoom (d : Document) (dtd : Dtd) (line : Nat) (e : Element) :
    Paced .nothing (d.makeRoom dtd line e).2 := by
  unfold makeRoom
  split
  · trivial
  · split
    · exact paced_closeMany (fun _ => rfl) line _ d
    · exact .of_quiet rfl

/-- At the end of the document the flag is looked at before each end tag that is left. -/
theorem paced_finish (d : Document) (line : Nat) : Paced .nothing (d.finish line).2 := by
  have hclosing : Paced .nothing
      (closeMany (fun _ => []) line d.elements.stack.length d).2 :=
    paced_closeMany (fun _ => rfl) line _ d
  have hlast (d' : Document) : Paced .nothing ((d'.flush line true).2 ++ [.deliver .finished]) :=
    d'.paced_flushAs line d'.elements.content true rfl
  simp only [finish, List.append_assoc]
  exact hclosing.append (hlast _)

/-- The end of the document comes last, after a checkpoint. -/
theorem exists_finish (d : Document) (line : Nat) :
    ∃ actions, (d.finish line).2 = actions ++ [.deliver .finished] ∧ .checkpoint ∈ actions := by
  have hflush (d' : Document) : .checkpoint ∈ (d'.flush line true).2 := List.mem_cons_self
  exact ⟨_, rfl, List.mem_append_right _ (hflush _)⟩

end Document

namespace Reader

variable {g : Grammar} {s t : State} {actions : List Action} {source : Source}

/-! ## Readings -/

/-- No deed delivers an event before a checkpoint. -/
theorem Deed.paced (h : Deed g s actions t) : Paced .nothing actions := by
  cases h with
  | quiet hevents => exact .of_quiet hevents
  | room => exact s.document.paced_makeRoom _ _ _
  | opened => exact s.document.paced_openElement _ _ _
  | empty => exact (s.document.paced_openElement _ _ _).append (Document.paced_closeCurrent _ _)
  | closed => exact s.document.paced_closeElement _ _
  | rawClosed => exact s.document.paced_closeCurrent _
  | space => exact s.document.paced_space _
  | unknown => exact s.document.paced_flushAs _ _ _ rfl

/-- Nor does a reading of any length deliver an event before a checkpoint. -/
theorem Reaches.paced (h : Reaches g s actions t) (hs : s.Sound g) : Paced .nothing actions := by
  induction h with
  | refl => trivial
  | step hstep _ ih => exact (deed_of_step hs hstep).paced.append (ih (sound_of_step hs hstep))

/-- No step delivers an event before a checkpoint. -/
theorem paced_step (hs : s.Sound g) : Paced .nothing (step g s).1 := by
  have hproceeds := proceeds_step hs
  rcases hstep : step g s with ⟨actions, next | outcome⟩
  · rw [hstep] at hproceeds
    exact hproceeds.1.paced
  · rw [hstep] at hproceeds
    cases outcome with
    | finished =>
      obtain ⟨place, line, -, -, rfl⟩ := hproceeds
      exact s.document.paced_finish line
    | failed failure =>
      have hnothing : actions = [] := hproceeds
      rw [hnothing]
      trivial

/-- No reading delivers an event before a checkpoint. -/
theorem paced_read (g : Grammar) (source : Source) : Paced .nothing (read g source).actions := by
  obtain ⟨actions, t, last, outcome, hreach, hstop, hrun⟩ := exists_stop g (.start g source)
  have hstart := sound_start g source
  have hlast := paced_step (hreach.sound hstart)
  rw [hstop] at hlast
  unfold read
  rw [hrun]
  exact (hreach.paced hstart).append hlast

/-- A reading that gets to the end of its document ends it last, after a checkpoint. -/
theorem exists_actions_of_finished (h : (read g source).outcome = .finished) :
    ∃ actions, (read g source).actions = actions ++ [.deliver .finished] ∧
      .checkpoint ∈ actions ∧ .finished ∉ actionEvents actions := by
  obtain ⟨body, causes, d, hregular, -, -, hevents⟩ := ends_read h
  obtain ⟨actions, t, last, outcome, hreach, hstop, hrun⟩ := exists_stop g (.start g source)
  unfold read at h hevents ⊢
  rw [hrun] at h hevents ⊢
  simp only at h
  subst h
  have hproceeds := proceeds_step (hreach.sound (sound_start g source))
  rw [hstop] at hproceeds
  obtain ⟨place, line, -, -, rfl⟩ := hproceeds
  obtain ⟨closing, hclosing, hcheckpoint⟩ := t.document.exists_finish line
  refine ⟨actions ++ closing, ?_, List.mem_append_right _ hcheckpoint, ?_⟩
  · rw [hclosing, List.append_assoc]
  · have hbody : actionEvents (actions ++ closing) ++ [.finished] = body ++ [.finished] := by
      rw [← hevents]
      show _ = actionEvents (actions ++ (t.document.finish line).2)
      rw [hclosing, ← List.append_assoc, actionEvents_append (actions ++ closing)]
      rfl
    rw [List.append_cancel_right hbody]
    exact hregular.finished_not_mem

/-- The document does not end before a checkpoint. -/
theorem finished_not_mem_before {before after : List Action}
    (h : (read g source).actions = before ++ .checkpoint :: after) :
    .finished ∉ actionEvents before := by
  -- what comes before the checkpoint is a part of actions that do not end the document
  have hpart {actions : List Action} (hactions : before <+: actions)
      (hnot : .finished ∉ actionEvents actions) : .finished ∉ actionEvents before :=
    fun hmem => hnot ((hactions.filterMap _).subset hmem)
  cases houtcome : (read g source).outcome with
  | finished =>
    obtain ⟨actions, hactions, -, hnot⟩ := exists_actions_of_finished houtcome
    refine hpart ?_ hnot
    rw [h] at hactions
    rcases List.eq_nil_or_concat after with rfl | ⟨rest, last, rfl⟩
    · have hlast := (List.append_inj' hactions rfl).2
      cases hlast
    · rw [List.concat_eq_append, ← List.cons_append, ← List.append_assoc] at hactions
      exact ⟨_, (List.append_inj' hactions rfl).1⟩
  | failed failure =>
    obtain ⟨causes, d, hregular⟩ := regular_read houtcome
    exact hpart ⟨_, h.symm⟩ hregular.finished_not_mem

/-- An event after which a reading that gets to the end passes no checkpoint is the last one, or the
last but one. -/
theorem finished_of_not_mem {before after : List Action} {event : Event}
    (h : (read g source).actions = before ++ .deliver event :: after)
    (hfinished : (read g source).outcome = .finished) (hnot : .checkpoint ∉ after) :
    event = .finished ∨ unchecked after = [.finished] := by
  obtain ⟨actions, hactions, -, -⟩ := exists_actions_of_finished hfinished
  have hpaced := paced_read g source
  rw [h] at hactions hpaced
  obtain ⟨hlength, -⟩ := hpaced.after_event
  rcases List.eq_nil_or_concat after with rfl | ⟨rest, last, rfl⟩
  · cases (List.append_inj' hactions rfl).2
    exact .inl rfl
  · rw [List.concat_eq_append] at hactions hnot hlength ⊢
    rw [← List.cons_append, ← List.append_assoc] at hactions
    cases (List.append_inj' hactions rfl).2
    have hevents : unchecked (rest ++ [.deliver .finished]) =
        actionEvents rest ++ [.finished] := by
      rw [unchecked_of_not_mem hnot, actionEvents_append]
      rfl
    have hrest : (actionEvents rest).length ≤ 0 := by
      rw [hevents, List.length_append] at hlength
      exact Nat.le_of_succ_le_succ hlength
    rw [hevents, List.length_eq_zero_iff.1 (Nat.le_zero.1 hrest)]
    exact .inr rfl

end Reader

end Markup
