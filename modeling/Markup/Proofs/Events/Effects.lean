import Markup.Proofs.Events.Operations

/-!
# What actions do, apart from lines

Two readings of the same characters may do the same at different lines of their sources. `effects`
lists what actions do without the lines of issues and without remarks. Every operation on a document
has the same result and the same effects at any two lines (`Document.Agree`).
-/

namespace Markup

/-- What an action does, whatever line it names. -/
inductive Effect where
  /-- Reading stops here if it has been cancelled. -/
  | checkpoint
  /-- An event is delivered. -/
  | deliver (event : Event)
  /-- A problem is recorded. -/
  | problem (cause : IssueCause)
  deriving DecidableEq

/-- The event that an effect delivers. -/
def Effect.event? : Effect → Option Event
  | deliver event => some event
  | _ => none

/-- The problem that an effect records. -/
def Effect.cause? : Effect → Option IssueCause
  | problem cause => some cause
  | _ => none

/-- The effect of an action; a remark has none. -/
def Action.effect? : Action → Option Effect
  | checkpoint => some .checkpoint
  | deliver event => some (.deliver event)
  | report issue => some (.problem issue.cause)
  | note _ => none

/-- The effects of actions in order. -/
def effects (actions : List Action) : List Effect :=
  actions.filterMap Action.effect?

section

variable {actions more : List Action}

@[simp] theorem effects_nil : effects [] = [] := rfl

@[simp] theorem effects_checkpoint :
    effects (.checkpoint :: actions) = .checkpoint :: effects actions := rfl

@[simp] theorem effects_deliver (event : Event) :
    effects (.deliver event :: actions) = .deliver event :: effects actions := rfl

@[simp] theorem effects_report (issue : Issue) :
    effects (.report issue :: actions) = .problem issue.cause :: effects actions := rfl

@[simp] theorem effects_note (remark : String) :
    effects (.note remark :: actions) = effects actions := rfl

/-- Actions have the effects of their parts. -/
@[simp] theorem effects_append : effects (actions ++ more) = effects actions ++ effects more :=
  List.filterMap_append

/-- The events that actions deliver are among their effects. -/
theorem actionEvents_of_effects (h : effects actions = effects more) :
    actionEvents actions = actionEvents more := by
  have hevents (actions : List Action) :
      actionEvents actions = (effects actions).filterMap Effect.event? := by
    rw [effects, List.filterMap_filterMap]
    exact congrArg (List.filterMap · actions) (funext fun action => by cases action <;> rfl)
  rw [hevents, hevents, h]

/-- The problems that actions report are among their effects. -/
theorem actionCauses_of_effects (h : effects actions = effects more) :
    actionCauses actions = actionCauses more := by
  have hcauses (actions : List Action) :
      actionCauses actions = (effects actions).filterMap Effect.cause? := by
    rw [effects, List.filterMap_filterMap, actionCauses, List.map_filterMap]
    exact congrArg (List.filterMap · actions) (funext fun action => by cases action <;> rfl)
  rw [hcauses, hcauses, h]

end

namespace Document

variable {r r' : Document × List Action}

/-! ## Operations at any line -/

/-- Two results of an operation are the same, apart from lines. -/
structure Agree (r r' : Document × List Action) : Prop where
  /-- The documents are the same. -/
  document : r.1 = r'.1
  /-- So are the effects. -/
  effects : effects r.2 = effects r'.2

/-- A result agrees with itself. -/
theorem Agree.refl (r : Document × List Action) : Agree r r := ⟨rfl, rfl⟩

/-- The same actions after results that agree. -/
theorem Agree.concat (h : Agree r r') (f : Document → Document) (actions : List Action) :
    Agree (f r.1, r.2 ++ actions) (f r'.1, r'.2 ++ actions) := by
  refine ⟨congrArg f h.document, ?_⟩
  simp only [effects_append, h.effects]

variable (d : Document) (line line' : Nat)

/-- The line does not matter to what becomes of a text. -/
theorem effects_textActions (content : ContentType) (text : String) :
    Markup.effects (d.textActions line content text) =
      Markup.effects (d.textActions line' content text) := by
  unfold textActions
  split
  · rfl
  · split
    · rfl
    · split
      · rfl
      · split <;> rfl

/-- The line does not matter to a flush in a content of a type. -/
theorem agree_flushAs (content : ContentType) (beforeEnd : Bool) :
    Agree (d.flushAs line content beforeEnd) (d.flushAs line' content beforeEnd) := by
  refine ⟨rfl, ?_⟩
  simp only [flushAs, effects_checkpoint]
  rw [effects_textActions]

/-- The line does not matter to a flush. -/
theorem agree_flush (beforeEnd : Bool) : Agree (d.flush line beforeEnd) (d.flush line' beforeEnd) :=
  d.agree_flushAs line line' _ beforeEnd

/-- The line does not matter to a space. -/
theorem agree_space : Agree (d.space line) (d.space line') := by
  have hflush := d.agree_flush line line' false
  rw [space_eq, space_eq]
  split
  · exact hflush.concat (fun _ => d.settled) _
  · exact ⟨rfl, hflush.effects⟩

/-- The line does not matter where an element opens. -/
theorem agree_openElement (e : Element) (attributes : Attributes) :
    Agree (d.openElement line e attributes) (d.openElement line' e attributes) := by
  rw [openElement_eq, openElement_eq]
  exact (d.agree_flush line line' false).concat (fun _ => ⟨d.elements.push e, ""⟩) _

/-- The line does not matter where the innermost element closes. -/
theorem agree_closeCurrent : Agree (d.closeCurrent line) (d.closeCurrent line') := by
  cases he : d.elements.current? with
  | none =>
    simp only [closeCurrent, he]
    exact .refl _
  | some e =>
    rw [closeCurrent_eq line he, closeCurrent_eq line' he]
    exact (d.agree_flush line line' true).concat (fun _ => ⟨d.elements.pop, ""⟩) _

/-- The line does not matter where elements close one after the other. -/
theorem agree_closeMany (remark : Element → List Action) (n : Nat) :
    Agree (closeMany remark line n d) (closeMany remark line' n d) := by
  induction n generalizing d with
  | zero => exact .refl _
  | succ n ih =>
    have hclose := d.agree_closeCurrent line line'
    have hrest := ih (d.closeCurrent line).1
    -- the elements that are left are closed in the same document
    rw [hclose.document] at hrest
    simp only [closeMany]
    rw [hclose.document]
    refine ⟨hrest.document, ?_⟩
    simp only [effects_append]
    rw [hclose.effects, hrest.effects]

/-- The line does not matter to an end tag. -/
theorem agree_closeElement (name : Name) :
    Agree (d.closeElement line name) (d.closeElement line' name) := by
  unfold closeElement
  split
  · exact d.agree_closeMany line line' _ _
  · exact ⟨rfl, rfl⟩

/-- The line does not matter where room is made for an element. -/
theorem agree_makeRoom (dtd : Dtd) (e : Element) :
    Agree (d.makeRoom dtd line e) (d.makeRoom dtd line' e) := by
  unfold makeRoom
  split
  · exact .refl _
  · split
    · exact d.agree_closeMany line line' _ _
    · exact ⟨rfl, rfl⟩

/-- The line does not matter at the end of a document. -/
theorem effects_finish :
    Markup.effects (d.finish line).2 = Markup.effects (d.finish line').2 := by
  have hclose := d.agree_closeMany line line' (fun _ => []) d.elements.stack.length
  have hflush := agree_flush (closeMany (fun _ => []) line' d.elements.stack.length d).1 line line'
    true
  simp only [finish, effects_append]
  rw [hclose.document, hclose.effects, hflush.effects]

end Document

end Markup
