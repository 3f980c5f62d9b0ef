import Markup.Proofs.Events.Operations
import Markup.Reader.Step

/-!
# The lines of issues

An issue names the line of the input when it is reported. `Located line actions` says that all
issues among actions name one line. Every operation on a document names the line that it is given,
and a step names the line of the input after it (`located_stepOn`).
-/

namespace Markup

/-- Whether all issues among actions name this line. -/
def Located (line : Nat) (actions : List Action) : Prop :=
  ∀ issue, .report issue ∈ actions → issue.line = line

section

variable {line : Nat} {actions more : List Action}

theorem located_nil : Located line [] :=
  nofun

theorem located_append (h : Located line actions) (h' : Located line more) :
    Located line (actions ++ more) := by
  intro issue hissue
  exact (List.mem_append.1 hissue).elim (h issue) (h' issue)

theorem located_checkpoint (h : Located line actions) : Located line (.checkpoint :: actions) := by
  intro issue hissue
  rcases List.mem_cons.1 hissue with hhead | htail
  · cases hhead
  · exact h issue htail

theorem located_deliver (event : Event) : Located line [.deliver event] := by
  intro issue hissue
  cases List.mem_singleton.1 hissue

theorem located_note (remark : String) : Located line [.note remark] := by
  intro issue hissue
  cases List.mem_singleton.1 hissue

theorem located_report (cause : IssueCause) (line : Nat) :
    Located line [.report ⟨cause, line⟩] := by
  intro issue hissue
  cases List.mem_singleton.1 hissue
  rfl

end

namespace Document

/-! ## Operations on a document -/

variable (d : Document) (line : Nat)

theorem located_textActions (content : ContentType) (text : String) :
    Located line (d.textActions line content text) := by
  unfold textActions
  split
  · exact located_nil
  · split
    · split
      · exact located_nil
      · exact located_deliver _
    · split
      · exact located_deliver _
      · split
        · exact located_nil
        · exact located_report _ line

theorem located_flushAs (content : ContentType) (beforeEnd : Bool) :
    Located line (d.flushAs line content beforeEnd).2 :=
  located_checkpoint (d.located_textActions line content _)

theorem located_flush (beforeEnd : Bool) : Located line (d.flush line beforeEnd).2 :=
  d.located_flushAs line _ beforeEnd

theorem located_space : Located line (d.space line).2 := by
  rw [space_eq]
  split
  · exact located_append (d.located_flush line false) (located_deliver _)
  · exact d.located_flush line false

theorem located_openElement (e : Element) (attributes : Attributes) :
    Located line (d.openElement line e attributes).2 := by
  rw [openElement_eq]
  exact located_append (d.located_flush line false) (located_deliver _)

theorem located_closeCurrent : Located line (d.closeCurrent line).2 := by
  cases he : d.elements.current? with
  | none =>
    simp only [closeCurrent, he]
    exact located_nil
  | some e =>
    rw [closeCurrent_eq line he]
    exact located_append (d.located_flush line true) (located_deliver _)

theorem located_closeMany {remark : Element → List Action} (h : ∀ e, Located line (remark e))
    (n : Nat) : Located line (closeMany remark line n d).2 := by
  induction n generalizing d with
  | zero => exact located_nil
  | succ n ih =>
    have hremarks : Located line ((d.elements.current?.map remark).getD []) := by
      cases d.elements.current? with
      | none => exact located_nil
      | some e => exact h e
    exact located_append (located_append hremarks (d.located_closeCurrent line)) (ih _)

theorem located_closeElement (name : Name) : Located line (d.closeElement line name).2 := by
  unfold closeElement
  split
  · exact d.located_closeMany line (fun _ => located_nil) _
  · exact located_report _ line

theorem located_makeRoom (dtd : Dtd) (e : Element) : Located line (d.makeRoom dtd line e).2 := by
  unfold makeRoom
  split
  · exact located_nil
  · split
    · exact d.located_closeMany line (fun _ => located_note _) _
    · exact located_report _ line

theorem located_finish : Located line (d.finish line).2 := by
  refine located_append (located_append (d.located_closeMany line (fun _ => located_nil) _) ?_)
    (located_deliver _)
  exact located_flush _ line true

end Document

namespace Reader

/-! ## Steps -/

/-- A move that goes on names the line of the input after it, and one that stops the given line. -/
def Move.Located (line : Nat) (m : Move) : Prop :=
  match m.2 with
  | .running t => Markup.Located t.input.line m.1
  | .stopped _ => Markup.Located line m.1

variable {g : Grammar} {s : State} {line : Nat}

theorem located_goto (mode : Mode) : (s.goto mode).Located line :=
  located_nil

theorem located_change {r : Document × List Action} (mode : Mode)
    (h : Located s.input.line r.2) : (s.change mode r).Located line :=
  h

theorem State.located_report (cause : IssueCause) (mode : Mode) :
    (s.report cause mode).Located line :=
  Markup.located_report cause s.input.line

theorem located_resume (site : Site) (text : String) : (s.resume site text).Located line := by
  cases site with
  | text place => exact located_goto (.text place)
  | value v => exact located_goto _

theorem located_endNumeric (site : Site) (hexadecimal : Bool) (digits : List Char) :
    (endNumeric s site hexadecimal digits).Located line := by
  unfold endNumeric
  split
  · exact located_resume site _
  · exact located_note _

theorem located_endEntity (site : Site) (name : String) (terminated : Bool) :
    (endEntity g s site name terminated).Located line := by
  cases site with
  | value v => exact located_resume (.value v) _
  | text place =>
    simp only [endEntity, endTextEntity]
    split
    · exact located_change (.text place) (s.document.located_space s.input.line)
    · split
      · exact State.located_report _ (.text place)
      · split
        · exact located_note _
        · exact State.located_report _ (.text place)

theorem located_endEndTag (name : Name) : (endEndTag g s name).Located line := by
  unfold endEndTag
  split
  · exact located_change _ (s.document.located_closeElement s.input.line name)
  · split
    · exact State.located_report _ _
    · refine located_change _ (located_append ?_ (located_deliver _))
      exact s.document.located_flushAs s.input.line .pcdata true

theorem located_endStartTagName (name : Name) : (endStartTagName g s name).Located line := by
  unfold endStartTagName
  split
  · exact State.located_report _ _
  · exact located_change _ (s.document.located_makeRoom s.input.line g.dtd _)

theorem located_endAttribute (tag : Tag) (name : Name) (value : String) :
    (endAttribute g s tag name value).Located line := by
  unfold endAttribute
  split
  · exact State.located_report _ _
  · exact located_goto _

theorem located_endStartTag (tag : Tag) : (endStartTag s tag).Located line := by
  have hopen := s.document.located_openElement s.input.line tag.element tag.attributes
  unfold endStartTag
  split
  · have hclose := (s.document.openElement s.input.line tag.element tag.attributes).1
      |>.located_closeCurrent s.input.line
    exact located_change _ (located_append hopen hclose)
  · exact located_change _ hopen
  · exact located_change _ hopen
  · exact located_change _ hopen

theorem located_endRaw : (endRaw s).Located line :=
  located_change _ (s.document.located_closeCurrent s.input.line)

theorem located_tagRest {mode : Mode} {done : State → Move} (c? : Option Char)
    (h : ∀ s, (done s).Located line) : (stepTagRest s mode done c?).Located line := by
  cases c? with
  | none => exact h s
  | some c =>
    simp only [stepTagRest]
    split
    · exact h _
    · split
      · exact h s
      · exact located_goto mode

/-- The issues of a step name the line of the input after it. -/
theorem located_stepOn (g : Grammar) (s : State) (c? : Option Char) :
    (stepOn g s c?).Located s.input.line := by
  obtain ⟨i, mode, d⟩ := s
  cases mode with
  | text place =>
    simp only [stepOn, stepText]
    split
    · exact d.located_finish i.line
    · repeat' split
      all_goals exact located_goto _
  | reference site =>
    simp only [stepOn, stepReference]
    repeat' split
    all_goals first | exact located_goto _ | exact located_resume site _
  | digits site hexadecimal digits =>
    simp only [stepOn, stepDigits]
    repeat' split
    all_goals first | exact located_goto _ | exact located_endNumeric site hexadecimal digits
  | entityName site name =>
    simp only [stepOn, stepEntityName]
    repeat' split
    all_goals first | exact located_goto _ | exact located_endEntity site name _
  | endTagRest name => exact located_tagRest c? fun _ => located_endEndTag name
  | startTagRest => exact located_tagRest c? fun _ => located_goto _
  | rawEndTagRest element => exact located_tagRest c? fun _ => located_endRaw
  | startTagName name =>
    simp only [stepOn, stepStartTagName]
    repeat' split
    all_goals first | exact located_goto _ | exact located_endStartTagName (.fold name)
  | attributes tag =>
    simp only [stepOn, stepAttributes]
    repeat' split
    all_goals
      first | exact located_goto _ | exact located_endStartTag tag | exact State.located_report _ _
  | attributeNameEnd tag name =>
    simp only [stepOn, stepAttributeNameEnd]
    repeat' split
    all_goals first | exact located_goto _ | exact located_endAttribute tag name ""
  | value v =>
    simp only [stepOn, stepValue, stepQuotedValue, stepBareValue]
    repeat' split
    all_goals first | exact located_goto _ | exact located_endAttribute v.tag v.name v.text
  | markup =>
    simp only [stepOn, stepMarkup]
    repeat' split
    all_goals
      first
      | exact located_goto _
      | exact located_checkpoint (located_report _ _)
      | exact located_checkpoint located_nil
  | endTag =>
    simp only [stepOn, stepEndTag]
    repeat' split
    all_goals first | exact located_goto _ | exact located_checkpoint located_nil
  | _ =>
    -- in all other modes a step only goes on
    simp only [stepOn, stepTextReturn, stepNumericReference, stepEndTagName, stepDeclaration,
      stepComment, stepSkipped, stepAttributeName, stepValueStart, stepValueReturn, stepRawMarkup,
      stepRawEndTag]
    repeat' split
    all_goals exact located_goto _

end Reader

end Markup
