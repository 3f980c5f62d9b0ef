import Markup.Proofs.Events.Effects
import Markup.Proofs.Reader.Reaches

/-!
# Steps on two inputs

What a step decides depends on the mode, the document and the character it is given, and on nothing
else of the input. `Parallel g s input' c? move move'` lists what a step can decide, for the input
of `s` and for another one at the same time: reading stops, or goes on with the character taken or
left, or an entity is to be expanded. At the end of the input there is no character to take.
`parallel_stepOn` says that every step decides one of these. With the same input on both sides it
says what a step can do to its input (`running_cases`); with two inputs it is one step of a
comparison of two readings.

Among the modes it also says how a reference begins: the reader gets to a mode in which the input is
held only from such a mode, or by taking an ampersand.
-/

namespace Markup

/-- The input after a step that takes the character, or leaves it. -/
def Input.after (i : Input) (takes : Bool) : Input :=
  bif takes then i.consume else i

@[simp] theorem Input.after_true (i : Input) : i.after true = i.consume := rfl

@[simp] theorem Input.after_false (i : Input) : i.after false = i := rfl

namespace Reader

/-- Reads the replacement text of an entity next, or the name of the entity as text. -/
def State.expand (s : State) (place : Place) (name text : String) : Move :=
  match s.input.pushEntity name text with
  | .ok input =>
    ([.note ("expanding entity &" ++ name ++ ";")], .running { s with input, mode := .text place })
  | .error refusal =>
    (s.append ("&" ++ name)).report (.unexpandedEntity name refusal) (.text place)

/-- What a step from `s` on a character decides, for the input of `s` and for another input. -/
inductive Parallel (g : Grammar) (s : State) (input' : Input) (c? : Option Char) :
    Move → Move → Prop
  /-- The document ends. -/
  | stops {place : Place} {actions actions' : List Action} : s.mode = .text place → c? = none →
      effects actions = effects actions' →
      Parallel g s input' c? (actions, .stopped .finished) (actions', .stopped .finished)
  /-- The reader goes on in a mode. -/
  | goes {mode : Mode} {document : Document} {actions actions' : List Action} {takes : Bool} :
      (takes = true → c?.isSome = true) →
      (mode.isHeld = true → s.mode.isHeld = true ∨ (takes = true ∧ c? = some '&')) →
      effects actions = effects actions' →
      Parallel g s input' c? (actions, .running ⟨s.input.after takes, mode, document⟩)
        (actions', .running ⟨input'.after takes, mode, document⟩)
  /-- An entity is to be expanded. -/
  | expands {place : Place} {name : String} {entity : Entity} {takes : Bool} :
      (takes = true → c?.isSome = true) → s.mode = .entityName (.text place) name →
      g.dtd.entity? name = some entity →
      Parallel g s input' c?
        (State.expand ⟨s.input.after takes, s.mode, s.document⟩ place name entity.replacement)
        (State.expand ⟨input'.after takes, s.mode, s.document⟩ place name entity.replacement)

/-- Nothing is asked of a mode in which the input is not held. -/
theorem vacuous {p : Prop} (h : false = true) : p :=
  absurd h Bool.false_ne_true

/-- A character can be taken where there is one. -/
theorem taken {c : Char} (_ : true = true) : (some c).isSome = true :=
  rfl

section

variable {g : Grammar} {i i' : Input} {mode m next : Mode} {d d' : Document} {c? : Option Char}
  {c : Char} {takes : Bool}

/-! ## Going on -/

/-- Going on without the character. -/
theorem parallel_left (hheld : next.isHeld = true → mode.isHeld = true) :
    Parallel g ⟨i, mode, d⟩ i' c? (State.goto ⟨i, m, d'⟩ next) (State.goto ⟨i', m, d'⟩ next) :=
  .goes vacuous (fun h => .inl (hheld h)) rfl

/-- Going on after the character. -/
theorem parallel_taken (hheld : next.isHeld = true → mode.isHeld = true ∨ c = '&') :
    Parallel g ⟨i, mode, d⟩ i' (some c) (State.goto ⟨i.consume, m, d'⟩ next)
      (State.goto ⟨i'.consume, m, d'⟩ next) := by
  refine .goes taken (fun h => ?_) rfl
  rcases hheld h with hmode | rfl
  · exact .inl hmode
  · exact .inr ⟨rfl, rfl⟩

/-- Going on outside references, after a problem. -/
theorem parallel_report {cause : IssueCause} (htakes : takes = true → c?.isSome = true)
    (hheld : next.isHeld = false) :
    Parallel g ⟨i, mode, d⟩ i' c? (State.report ⟨i.after takes, m, d'⟩ cause next)
      (State.report ⟨i'.after takes, m, d'⟩ cause next) := by
  refine .goes htakes (fun h => ?_) rfl
  rw [hheld] at h
  cases h

/-- Going on outside references, after an operation on the document. -/
theorem parallel_change (op : Nat → Document × List Action)
    (htakes : takes = true → c?.isSome = true)
    (hop : ∀ line line', Document.Agree (op line) (op line')) (hheld : next.isHeld = false) :
    Parallel g ⟨i, mode, d⟩ i' c?
      (State.change ⟨i.after takes, m, d'⟩ next (op (i.after takes).line))
      (State.change ⟨i'.after takes, m, d'⟩ next (op (i'.after takes).line)) := by
  have hagree := hop (i.after takes).line (i'.after takes).line
  unfold State.change
  rw [hagree.document]
  refine .goes htakes (fun h => ?_) hagree.effects
  rw [hheld] at h
  cases h

/-- Going on after a reference. -/
theorem parallel_resume (htakes : takes = true → c?.isSome = true) (site : Site)
    (text : String) :
    Parallel g ⟨i, mode, d⟩ i' c? (State.resume ⟨i.after takes, m, d'⟩ site text)
      (State.resume ⟨i'.after takes, m, d'⟩ site text) := by
  cases site with
  | text place => exact .goes htakes vacuous rfl
  | value v => exact .goes htakes vacuous rfl

/-! ## Where something ends -/

theorem parallel_endNumeric (htakes : takes = true → c?.isSome = true) (site : Site)
    (hexadecimal : Bool) (digits : List Char) :
    Parallel g ⟨i, mode, d⟩ i' c? (endNumeric ⟨i.after takes, m, d⟩ site hexadecimal digits)
      (endNumeric ⟨i'.after takes, m, d⟩ site hexadecimal digits) := by
  unfold endNumeric
  split
  · exact parallel_resume htakes site _
  · cases site with
    | text place => exact .goes htakes vacuous rfl
    | value v => exact .goes htakes vacuous rfl

theorem parallel_endEntity (htakes : takes = true → c?.isSome = true) (site : Site) (name : String)
    (hmode : mode = .entityName site name) (terminated : Bool) :
    Parallel g ⟨i, mode, d⟩ i' c? (endEntity g ⟨i.after takes, mode, d⟩ site name terminated)
      (endEntity g ⟨i'.after takes, mode, d⟩ site name terminated) := by
  cases site with
  | value v => exact parallel_resume htakes (.value v) _
  | text place =>
    simp only [endEntity, endTextEntity]
    split
    · exact parallel_change d.space htakes d.agree_space rfl
    · split
      · exact parallel_report htakes rfl
      · rename_i entity hentity
        exact .expands htakes hmode hentity

theorem parallel_endEndTag (htakes : takes = true → c?.isSome = true) (name : Name) :
    Parallel g ⟨i, mode, d⟩ i' c? (endEndTag g ⟨i.after takes, m, d⟩ name)
      (endEndTag g ⟨i'.after takes, m, d⟩ name) := by
  unfold endEndTag
  split
  · exact parallel_change (d.closeElement · name) htakes
      (fun line line' => d.agree_closeElement line line' name) rfl
  · split
    · exact parallel_report htakes rfl
    · refine parallel_change
        (fun line => ((d.flushAs line .pcdata true).1, (d.flushAs line .pcdata true).2 ++
          [.deliver (.endTag (.ofName name.text .pcdata))])) htakes (fun line line' => ?_) ?_
      · exact (d.agree_flushAs line line' .pcdata true).concat (fun d => d) _
      · rfl

theorem parallel_endStartTagName (name : Name) :
    Parallel g ⟨i, mode, d⟩ i' c? (endStartTagName g ⟨i, m, d⟩ name)
      (endStartTagName g ⟨i', m, d⟩ name) := by
  unfold endStartTagName
  split
  · exact parallel_report vacuous rfl
  · rename_i e _
    exact parallel_change (d.makeRoom g.dtd · e) vacuous
      (fun line line' => d.agree_makeRoom line line' g.dtd e) rfl

theorem parallel_endAttribute (htakes : takes = true → c?.isSome = true) (tag : Tag)
    (name : Name) (value : String) :
    Parallel g ⟨i, mode, d⟩ i' c? (endAttribute g ⟨i.after takes, m, d⟩ tag name value)
      (endAttribute g ⟨i'.after takes, m, d⟩ tag name value) := by
  unfold endAttribute
  split
  · exact parallel_report htakes rfl
  · exact .goes htakes vacuous rfl

theorem parallel_endStartTag (htakes : takes = true → c?.isSome = true) (tag : Tag) :
    Parallel g ⟨i, mode, d⟩ i' c? (endStartTag ⟨i.after takes, m, d⟩ tag)
      (endStartTag ⟨i'.after takes, m, d⟩ tag) := by
  have hopen (line line' : Nat) := d.agree_openElement line line' tag.element tag.attributes
  unfold endStartTag
  split
  · refine parallel_change (fun line =>
      (((d.openElement line tag.element tag.attributes).1.closeCurrent line).1,
        (d.openElement line tag.element tag.attributes).2 ++
          ((d.openElement line tag.element tag.attributes).1.closeCurrent line).2)) htakes
      (fun line line' => ?_) rfl
    have hclose := (d.openElement line' tag.element tag.attributes).1.agree_closeCurrent line line'
    refine ⟨?_, ?_⟩
    · dsimp only
      rw [(hopen line line').document, hclose.document]
    · simp only [effects_append]
      rw [(hopen line line').document, (hopen line line').effects, hclose.effects]
  · exact parallel_change (d.openElement · tag.element tag.attributes) htakes hopen rfl
  · exact parallel_change (d.openElement · tag.element tag.attributes) htakes hopen rfl
  · exact parallel_change (d.openElement · tag.element tag.attributes) htakes hopen rfl

theorem parallel_endRaw (htakes : takes = true → c?.isSome = true) :
    Parallel g ⟨i, mode, d⟩ i' c? (endRaw ⟨i.after takes, m, d⟩) (endRaw ⟨i'.after takes, m, d⟩) :=
  parallel_change d.closeCurrent htakes d.agree_closeCurrent rfl

/-- The rest of a tag is read up to its end, whatever the end does. -/
theorem parallel_tagRest (done : State → Move)
    (hdone : ∀ {takes : Bool}, (takes = true → c?.isSome = true) →
      Parallel g ⟨i, mode, d⟩ i' c? (done ⟨i.after takes, mode, d⟩)
      (done ⟨i'.after takes, mode, d⟩)) :
    Parallel g ⟨i, mode, d⟩ i' c? (stepTagRest ⟨i, mode, d⟩ mode done c?)
      (stepTagRest ⟨i', mode, d⟩ mode done c?) := by
  cases c? with
  | none => exact hdone vacuous
  | some c =>
    simp only [stepTagRest]
    split
    · exact hdone taken
    · split
      · exact hdone vacuous
      · exact parallel_taken fun h => .inl h

/-! ## References -/

section

variable {site : Site}

theorem parallel_reference :
    Parallel g ⟨i, .reference site, d⟩ i' c? (stepReference ⟨i, .reference site, d⟩ site c?)
      (stepReference ⟨i', .reference site, d⟩ site c?) := by
  cases c? with
  | none => exact parallel_resume vacuous site _
  | some c =>
    simp only [stepReference]
    split
    · exact parallel_taken fun h => .inl (by cases site <;> exact h)
    · split
      · exact parallel_taken fun h => .inl (by cases site <;> exact h)
      · exact parallel_resume vacuous site _

theorem parallel_numericReference :
    Parallel g ⟨i, .numericReference site, d⟩ i' c?
      (stepNumericReference ⟨i, .numericReference site, d⟩ site c?)
      (stepNumericReference ⟨i', .numericReference site, d⟩ site c?) := by
  unfold stepNumericReference
  split
  · rename_i hx
    obtain ⟨c, rfl⟩ : ∃ c, c? = some c := by
      rcases hx with rfl | rfl
      · exact ⟨_, rfl⟩
      · exact ⟨_, rfl⟩
    exact parallel_taken fun h => .inl (by cases site <;> exact h)
  · exact parallel_left fun h => by cases site <;> exact h

theorem parallel_digits {hexadecimal : Bool} {digits : List Char} :
    Parallel g ⟨i, .digits site hexadecimal digits, d⟩ i' c?
      (stepDigits ⟨i, .digits site hexadecimal digits, d⟩ site hexadecimal digits c?)
      (stepDigits ⟨i', .digits site hexadecimal digits, d⟩ site hexadecimal digits c?) := by
  cases c? with
  | none => exact parallel_endNumeric vacuous site _ _
  | some c =>
    simp only [stepDigits]
    split
    · exact parallel_taken fun h => .inl (by cases site <;> exact h)
    · split
      · exact parallel_endNumeric taken site _ _
      · exact parallel_endNumeric vacuous site _ _

theorem parallel_entityName {name : String} :
    Parallel g ⟨i, .entityName site name, d⟩ i' c?
      (stepEntityName g ⟨i, .entityName site name, d⟩ site name c?)
      (stepEntityName g ⟨i', .entityName site name, d⟩ site name c?) := by
  cases c? with
  | none => exact parallel_endEntity vacuous site name rfl _
  | some c =>
    simp only [stepEntityName]
    split
    · exact parallel_taken fun h => .inl (by cases site <;> exact h)
    · split
      · exact parallel_endEntity taken site name rfl _
      · exact parallel_endEntity vacuous site name rfl _

end

/-! ## Text and tags -/

theorem parallel_text {place : Place} :
    Parallel g ⟨i, .text place, d⟩ i' c? (stepText ⟨i, .text place, d⟩ place c?)
      (stepText ⟨i', .text place, d⟩ place c?) := by
  cases c? with
  | none => exact .stops rfl rfl (d.effects_finish _ _)
  | some c =>
    simp only [stepText]
    split
    · rename_i hreference
      exact parallel_taken fun _ => .inr hreference.1
    · split
      · split
        · exact parallel_taken vacuous
        · exact parallel_taken vacuous
      · split
        · exact parallel_taken vacuous
        · exact parallel_taken vacuous

theorem parallel_textReturn {place : Place} :
    Parallel g ⟨i, .textReturn place, d⟩ i' c? (stepTextReturn ⟨i, .textReturn place, d⟩ place c?)
      (stepTextReturn ⟨i', .textReturn place, d⟩ place c?) := by
  unfold stepTextReturn
  split
  · rename_i hline
    rw [hline]
    exact parallel_taken vacuous
  · exact parallel_left vacuous

theorem parallel_markup :
    Parallel g ⟨i, .markup, d⟩ i' c? (stepMarkup ⟨i, .markup, d⟩ c?)
      (stepMarkup ⟨i', .markup, d⟩ c?) := by
  cases c? with
  | none => exact parallel_left vacuous
  | some c =>
    simp only [stepMarkup]
    split
    · exact parallel_taken vacuous
    · split
      · exact parallel_taken vacuous
      · split
        · exact .goes taken vacuous rfl
        · split
          · exact .goes taken vacuous rfl
          · exact parallel_left vacuous

theorem parallel_endTag :
    Parallel g ⟨i, .endTag, d⟩ i' c? (stepEndTag ⟨i, .endTag, d⟩ c?)
      (stepEndTag ⟨i', .endTag, d⟩ c?) := by
  cases c? with
  | none => exact parallel_left vacuous
  | some c =>
    simp only [stepEndTag]
    split
    · exact .goes taken vacuous rfl
    · exact parallel_left vacuous

theorem parallel_endTagName {name : String} :
    Parallel g ⟨i, .endTagName name, d⟩ i' c? (stepEndTagName ⟨i, .endTagName name, d⟩ name c?)
      (stepEndTagName ⟨i', .endTagName name, d⟩ name c?) := by
  cases c? with
  | none => exact parallel_left vacuous
  | some c =>
    simp only [stepEndTagName]
    split
    · exact parallel_taken vacuous
    · exact parallel_left vacuous

theorem parallel_declaration {dashed : Mode} (hdashed : dashed.isHeld = false) :
    Parallel g ⟨i, mode, d⟩ i' c? (stepDeclaration ⟨i, mode, d⟩ dashed c?)
      (stepDeclaration ⟨i', mode, d⟩ dashed c?) := by
  unfold stepDeclaration
  split
  · rename_i hdash
    rw [hdash]
    refine parallel_taken fun h => ?_
    rw [hdashed] at h
    cases h
  · exact parallel_left vacuous

theorem parallel_comment {dashes : Nat} :
    Parallel g ⟨i, .comment dashes, d⟩ i' c? (stepComment ⟨i, .comment dashes, d⟩ dashes c?)
      (stepComment ⟨i', .comment dashes, d⟩ dashes c?) := by
  cases c? with
  | none => exact parallel_left vacuous
  | some c =>
    simp only [stepComment]
    split
    · exact parallel_taken vacuous
    · split
      · exact parallel_taken vacuous
      · exact parallel_taken vacuous

theorem parallel_skipped :
    Parallel g ⟨i, .skipped, d⟩ i' c? (stepSkipped ⟨i, .skipped, d⟩ c?)
      (stepSkipped ⟨i', .skipped, d⟩ c?) := by
  cases c? with
  | none => exact parallel_left vacuous
  | some c =>
    simp only [stepSkipped]
    split
    · exact parallel_taken vacuous
    · exact parallel_taken vacuous

theorem parallel_startTagName {name : String} :
    Parallel g ⟨i, .startTagName name, d⟩ i' c?
      (stepStartTagName g ⟨i, .startTagName name, d⟩ name c?)
      (stepStartTagName g ⟨i', .startTagName name, d⟩ name c?) := by
  cases c? with
  | none => exact parallel_endStartTagName _
  | some c =>
    simp only [stepStartTagName]
    split
    · exact parallel_taken vacuous
    · exact parallel_endStartTagName _

/-! ## Attributes -/

section

variable {tag : Tag} {v : Value}

theorem parallel_attributes :
    Parallel g ⟨i, .attributes tag, d⟩ i' c? (stepAttributes ⟨i, .attributes tag, d⟩ tag c?)
      (stepAttributes ⟨i', .attributes tag, d⟩ tag c?) := by
  cases c? with
  | none => exact parallel_endStartTag vacuous tag
  | some c =>
    simp only [stepAttributes]
    split
    · exact parallel_taken vacuous
    · split
      · exact parallel_endStartTag taken tag
      · split
        · exact parallel_endStartTag vacuous tag
        · split
          · exact parallel_taken vacuous
          · split
            · exact parallel_taken vacuous
            · exact parallel_report taken rfl

theorem parallel_attributeName {name : String} :
    Parallel g ⟨i, .attributeName tag name, d⟩ i' c?
      (stepAttributeName ⟨i, .attributeName tag name, d⟩ tag name c?)
      (stepAttributeName ⟨i', .attributeName tag name, d⟩ tag name c?) := by
  cases c? with
  | none => exact parallel_left vacuous
  | some c =>
    simp only [stepAttributeName]
    split
    · exact parallel_taken vacuous
    · exact parallel_left vacuous

theorem parallel_attributeNameEnd {name : Name} :
    Parallel g ⟨i, .attributeNameEnd tag name, d⟩ i' c?
      (stepAttributeNameEnd g ⟨i, .attributeNameEnd tag name, d⟩ tag name c?)
      (stepAttributeNameEnd g ⟨i', .attributeNameEnd tag name, d⟩ tag name c?) := by
  cases c? with
  | none => exact parallel_endAttribute vacuous tag name _
  | some c =>
    simp only [stepAttributeNameEnd]
    split
    · exact parallel_taken vacuous
    · split
      · exact parallel_taken vacuous
      · exact parallel_endAttribute vacuous tag name _

theorem parallel_valueStart {name : Name} :
    Parallel g ⟨i, .valueStart tag name, d⟩ i' c?
      (stepValueStart ⟨i, .valueStart tag name, d⟩ tag name c?)
      (stepValueStart ⟨i', .valueStart tag name, d⟩ tag name c?) := by
  cases c? with
  | none => exact parallel_left vacuous
  | some c =>
    simp only [stepValueStart]
    split
    · exact parallel_taken vacuous
    · split
      · exact parallel_taken vacuous
      · exact parallel_left vacuous

theorem parallel_value :
    Parallel g ⟨i, .value v, d⟩ i' c? (stepValue g ⟨i, .value v, d⟩ v c?)
      (stepValue g ⟨i', .value v, d⟩ v c?) := by
  unfold stepValue
  split
  · cases c? with
    | none => exact parallel_endAttribute vacuous v.tag v.name _
    | some c =>
      simp only [stepQuotedValue]
      split
      · exact parallel_endAttribute taken v.tag v.name _
      · split
        · exact parallel_taken vacuous
        · split
          · exact parallel_taken vacuous
          · exact parallel_taken vacuous
  · cases c? with
    | none => exact parallel_endAttribute vacuous v.tag v.name _
    | some c =>
      simp only [stepBareValue]
      split
      · exact parallel_endAttribute vacuous v.tag v.name _
      · split
        · exact parallel_taken vacuous
        · exact parallel_taken vacuous

theorem parallel_valueReturn :
    Parallel g ⟨i, .valueReturn v, d⟩ i' c? (stepValueReturn ⟨i, .valueReturn v, d⟩ v c?)
      (stepValueReturn ⟨i', .valueReturn v, d⟩ v c?) := by
  unfold stepValueReturn
  split
  · rename_i hline
    rw [hline]
    exact parallel_taken vacuous
  · exact parallel_left vacuous

end

/-! ## Raw text -/

section

variable {e : Element}

theorem parallel_rawMarkup :
    Parallel g ⟨i, .rawMarkup e, d⟩ i' c? (stepRawMarkup ⟨i, .rawMarkup e, d⟩ e c?)
      (stepRawMarkup ⟨i', .rawMarkup e, d⟩ e c?) := by
  unfold stepRawMarkup
  split
  · rename_i hslash
    rw [hslash]
    exact parallel_taken vacuous
  · exact parallel_left vacuous

theorem parallel_rawEndTag {expected : List Char} {seen : String} :
    Parallel g ⟨i, .rawEndTag e expected seen, d⟩ i' c?
      (stepRawEndTag ⟨i, .rawEndTag e expected seen, d⟩ e expected seen c?)
      (stepRawEndTag ⟨i', .rawEndTag e expected seen, d⟩ e expected seen c?) := by
  cases expected with
  | nil =>
    simp only [stepRawEndTag]
    split
    · exact parallel_left vacuous
    · exact parallel_left vacuous
  | cons x expected =>
    cases c? with
    | none => exact parallel_left vacuous
    | some c =>
      simp only [stepRawEndTag]
      split
      · exact parallel_taken vacuous
      · exact parallel_left vacuous

end

/-! ## Every step -/

/-- Every step decides the same on any two inputs. -/
theorem parallel_stepOn (g : Grammar) (i i' : Input) (mode : Mode) (d : Document)
    (c? : Option Char) :
    Parallel g ⟨i, mode, d⟩ i' c? (stepOn g ⟨i, mode, d⟩ c?) (stepOn g ⟨i', mode, d⟩ c?) := by
  cases mode with
  | text place => exact parallel_text
  | textReturn place => exact parallel_textReturn
  | reference site => exact parallel_reference
  | numericReference site => exact parallel_numericReference
  | digits site hexadecimal digits => exact parallel_digits
  | entityName site name => exact parallel_entityName
  | markup => exact parallel_markup
  | endTag => exact parallel_endTag
  | endTagName name => exact parallel_endTagName
  | endTagRest name =>
    exact parallel_tagRest (endEndTag g · name) fun htakes => parallel_endEndTag htakes name
  | declaration => exact parallel_declaration rfl
  | declarationDash => exact parallel_declaration rfl
  | comment dashes => exact parallel_comment
  | skipped => exact parallel_skipped
  | startTagName name => exact parallel_startTagName
  | startTagRest =>
    exact parallel_tagRest (State.goto · (.text .content)) fun htakes => .goes htakes vacuous rfl
  | attributes tag => exact parallel_attributes
  | attributeName tag name => exact parallel_attributeName
  | attributeNameEnd tag name => exact parallel_attributeNameEnd
  | valueStart tag name => exact parallel_valueStart
  | value v => exact parallel_value
  | valueReturn v => exact parallel_valueReturn
  | rawMarkup e => exact parallel_rawMarkup
  | rawEndTag e expected seen => exact parallel_rawEndTag
  | rawEndTagRest e =>
    exact parallel_tagRest endRaw fun htakes => parallel_endRaw htakes

/-- What a step that goes on does: it takes the character or leaves it, and begins a reference at an
ampersand only; or it ends a reference and expands an entity. -/
theorem running_cases {s t : State} {actions : List Action}
    (h : step g s = (actions, .running t)) :
    ∃ takes,
      (t.input = s.looked.after takes ∧
        (t.mode.isHeld = true → s.mode.isHeld = true ∨ s.looked.pushback = some '&')) ∨
      ∃ name entity, s.mode.isHeld = true ∧ t.mode.isHeld = false ∧
        g.dtd.entity? name = some entity ∧
        (s.looked.after takes).pushEntity name entity.replacement = .ok t.input := by
  obtain ⟨c?, hpeek, hstep⟩ := exists_peek_of_running h
  have hparallel := parallel_stepOn g s.looked s.looked s.mode s.document c?
  rw [hstep] at hparallel
  generalize hmove : (actions, Progress.running t) = move at hparallel
  cases hparallel with
  | stops => cases hmove
  | @goes _ _ _ _ takes _ hheld =>
    cases hmove
    refine ⟨takes, .inl ⟨rfl, fun hmode => ?_⟩⟩
    rcases hheld hmode with hheld | ⟨-, rfl⟩
    · exact .inl hheld
    · exact .inr (Input.pushback_of_peek hpeek)
  | @expands place name entity takes _ hname hentity =>
    have hheld : s.mode.isHeld = true := by
      rw [show s.mode = _ from hname]
      rfl
    unfold State.expand at hmove
    cases hpush : (s.looked.after takes).pushEntity name entity.replacement with
    | error refusal =>
      simp only [hpush] at hmove
      cases hmove
      exact ⟨takes, .inl ⟨rfl, vacuous⟩⟩
    | ok j =>
      simp only [hpush] at hmove
      cases hmove
      exact ⟨takes, .inr ⟨name, entity, hheld, rfl, hentity, hpush⟩⟩

end

end Reader

end Markup
