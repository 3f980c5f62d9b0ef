import Markup.Proofs.Input.LineEnds
import Markup.Proofs.Reader.Lockstep
import Markup.Proofs.Reader.Modes

/-!
# Reading line ends

A mode does one of three things with a line end. In text and in quoted values a carriage return is
kept in mind until the next character shows whether a line feed goes with it. Modes that pass over
line ends pass over both characters (`Mode.passes`). All other modes leave the character, and do the
same for a carriage return as for a line feed and as for the end of the input (`stepOn_passes`,
`stepOn_leaves`).
-/

namespace Markup.Reader

/-! ## Steady modes -/

/-- Modes that the reader gets to without a carriage return: none is kept in mind, and no line end
is the mark around a value. -/
def Mode.Steady : Mode → Prop
  | .textReturn _ | .valueReturn _ => False
  | .value v | .reference (.value v) | .numericReference (.value v) | .digits (.value v) ..
  | .entityName (.value v) _ => v.mark ≠ some '\r' ∧ v.mark ≠ some '\n'
  | _ => True

/-- A move leads to a steady mode, if it goes on. -/
def LeadsSteady : Move → Prop
  | (_, .running t) => t.mode.Steady
  | (_, .stopped _) => True

section

variable {g : Grammar} {s : State} {c? : Option Char}

/-- After the name of an entity the reader is where the reference began. -/
theorem leadsSteady_endEntity {site : Site} (hsite : site.mode.Steady) (name : String)
    (terminated : Bool) : LeadsSteady (endEntity g s site name terminated) := by
  cases site with
  | value v => exact hsite
  | text place =>
    simp only [endEntity, endTextEntity]
    repeat' split
    all_goals trivial

/-- After an attribute the reader is in the list of attributes. -/
theorem leadsSteady_endAttribute (tag : Tag) (name : Name) (value : String) :
    LeadsSteady (endAttribute g s tag name value) := by
  unfold endAttribute
  split
  · trivial
  · trivial

/-- After a start tag the reader is in content or in raw text. -/
theorem leadsSteady_endStartTag (tag : Tag) : LeadsSteady (endStartTag s tag) := by
  unfold endStartTag
  split
  all_goals trivial

/-- Text leads to a mode that keeps a carriage return in mind only at one. -/
theorem leadsSteady_text (place : Place) (hc : c? ≠ some '\r') :
    LeadsSteady (stepText s place c?) := by
  cases c? with
  | none => trivial
  | some c =>
    simp only [stepText]
    split
    · trivial
    · split
      · cases place <;> trivial
      · rw [if_neg fun hreturn => hc (congrArg some hreturn)]
        trivial

/-- A value leads to a mode that keeps a carriage return in mind only at one. -/
theorem leadsSteady_value {v : Value} (hv : (Mode.value v).Steady) (hc : c? ≠ some '\r') :
    LeadsSteady (stepValue g s v c?) := by
  unfold stepValue
  split
  · cases c? with
    | none => exact leadsSteady_endAttribute _ _ _
    | some c =>
      simp only [stepQuotedValue]
      split
      · exact leadsSteady_endAttribute _ _ _
      · split
        · exact hv
        · rw [if_neg fun hreturn => hc (congrArg some hreturn)]
          exact hv
  · cases c? with
    | none => exact leadsSteady_endAttribute _ _ _
    | some c =>
      simp only [stepBareValue]
      split
      · exact leadsSteady_endAttribute _ _ _
      · split
        · exact hv
        · exact hv

/-- A quotation mark is no line end. -/
theorem leadsSteady_valueStart (tag : Tag) (name : Name) :
    LeadsSteady (stepValueStart s tag name c?) := by
  have hbare : (Mode.value ⟨tag, name, none, ""⟩).Steady :=
    ⟨(Option.some_ne_none _).symm, (Option.some_ne_none _).symm⟩
  cases c? with
  | none => exact hbare
  | some c =>
    simp only [stepValueStart]
    split
    · trivial
    · split
      · rename_i hmark
        rcases hmark with rfl | rfl
        · exact (by decide : some '"' ≠ some '\r' ∧ some '"' ≠ some '\n')
        · exact (by decide : some '\'' ≠ some '\r' ∧ some '\'' ≠ some '\n')
      · exact hbare

/-- The name of an entity goes on, or leads back to where the reference began. -/
theorem leadsSteady_entityName {site : Site} (hsite : site.mode.Steady) (name : String) :
    LeadsSteady (stepEntityName g s site name c?) := by
  unfold stepEntityName
  repeat' split
  · cases site <;> exact hsite
  · exact leadsSteady_endEntity hsite _ _
  · exact leadsSteady_endEntity hsite _ _
  · exact leadsSteady_endEntity hsite _ _

/-- Without a carriage return the reader stays in steady modes. -/
theorem leadsSteady_stepOn {i : Input} {mode : Mode} {d : Document} (hmode : mode.Steady)
    (hc : c? ≠ some '\r') : LeadsSteady (stepOn g ⟨i, mode, d⟩ c?) := by
  cases mode
  case textReturn | valueReturn => exact hmode.elim
  case text place => exact leadsSteady_text place hc
  case value v => exact leadsSteady_value hmode hc
  case valueStart tag name => exact leadsSteady_valueStart tag name
  -- a reference leads back to where it stands
  case reference site =>
    cases site <;> simp only [stepOn, stepReference] <;> repeat' split
    all_goals trivial
  case numericReference site =>
    cases site <;> simp only [stepOn, stepNumericReference] <;> repeat' split
    all_goals trivial
  case digits site hexadecimal digits =>
    cases site <;> simp only [stepOn, stepDigits, endNumeric] <;> repeat' split
    all_goals trivial
  case entityName site name =>
    exact leadsSteady_entityName (by cases site <;> exact hmode) name
  case attributes tag =>
    simp only [stepOn, stepAttributes]
    repeat' split
    all_goals first | trivial | exact leadsSteady_endStartTag tag
  case attributeNameEnd tag name =>
    simp only [stepOn, stepAttributeNameEnd]
    repeat' split
    all_goals first | trivial | exact leadsSteady_endAttribute _ _ _
  all_goals
    simp only [stepOn, stepMarkup, stepEndTag, stepEndTagName, stepTagRest, stepDeclaration,
      stepComment, stepSkipped, stepStartTagName, stepAttributeName, stepRawMarkup, stepRawEndTag,
      endEndTag, endStartTagName, endRaw]
    repeat' split
    all_goals trivial

/-! ## Modes that pass over line ends -/

/-- Whether line ends are passed over. -/
def Mode.passes : Mode → Bool
  | .endTagRest _ | .comment _ | .skipped | .startTagRest | .attributes _ | .attributeNameEnd ..
  | .valueStart .. | .rawEndTagRest _ => true
  | _ => false

/-- The mode after a line end that is passed over. -/
def Mode.passed : Mode → Mode
  | .comment _ => .comment 0
  | mode => mode

variable {i : Input} {mode : Mode} {d : Document}

/-- Both characters of a line end are passed over alike. -/
theorem stepOn_passes (hmode : mode.passes = true) {c : Char} (hc : c = '\r' ∨ c = '\n') :
    stepOn g ⟨i, mode, d⟩ (some c) = ([], .running ⟨i.consume, mode.passed, d⟩) := by
  rcases hc with rfl | rfl
  all_goals cases mode <;> first | rfl | cases hmode

/-- After one line end another is passed over. -/
theorem passes_passed (hmode : mode.passes = true) : mode.passed.passes = true := by
  cases mode <;> first | rfl | cases hmode

/-- A second line end leads nowhere else. -/
theorem passed_passed : mode.passed.passed = mode.passed := by
  cases mode <;> rfl

/-- No expansion is held where line ends are passed over. -/
theorem isHeld_of_passes (hmode : mode.passes = true) : mode.isHeld = false := by
  cases mode <;> first | rfl | cases hmode

/-- A mode in which line ends are passed over keeps none in mind. -/
theorem steady_of_passes (hmode : mode.passes = true) : mode.Steady := by
  cases mode <;> trivial

/-! ## Modes that leave line ends -/

/-- Whether line ends are left for the mode that follows. In what may be the end tag of raw text
that is so if no line end is looked for. -/
def Mode.leaves : Mode → Bool
  | .reference _ | .numericReference _ | .digits .. | .entityName .. | .markup | .endTag
  | .endTagName _ | .declaration | .declarationDash | .startTagName _ | .attributeName ..
  | .rawMarkup _ => true
  | .value v => v.mark.isNone
  | .rawEndTag _ expected _ => expected.all fun x => x.toUpper != '\r' && x.toUpper != '\n'
  | _ => false

/-- A line end that is left means as much as the end of the input. -/
theorem stepOn_leaves (hmode : mode.leaves = true) {c : Char} (hc : c = '\r' ∨ c = '\n') :
    stepOn g ⟨i, mode, d⟩ (some c) = stepOn g ⟨i, mode, d⟩ none := by
  cases mode
  case value v =>
    obtain ⟨tag, name, mark, text⟩ := v
    cases mark with
    | none => rcases hc with rfl | rfl <;> rfl
    | some mark => cases hmode
  case rawEndTag e expected seen =>
    cases expected with
    | nil => rcases hc with rfl | rfl <;> rfl
    | cons x expected =>
      have hx : c.toUpper ≠ x.toUpper := by
        have hboth := List.all_eq_true.1 hmode x List.mem_cons_self
        simp only [Bool.and_eq_true, bne_iff_ne] at hboth
        rcases hc with rfl | rfl
        · exact hboth.1.symm
        · exact hboth.2.symm
      simp only [stepOn, stepRawEndTag]
      rw [if_neg hx]
  case digits site hexadecimal digits =>
    rcases hc with rfl | rfl
    · cases hexadecimal <;> rfl
    · cases hexadecimal <;> rfl
  all_goals first | (rcases hc with rfl | rfl <;> rfl) | cases hmode

end

end Markup.Reader
