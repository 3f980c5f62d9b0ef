import Markup.Input.Weight
import Markup.Reader.Step

/-!
# Every step is progress

The load of a state is the weight of its input, with the weight of one more character while a
reference in text is being read, and a rank that orders the modes between which no character is
taken. Every step that does not end the reading makes the load smaller (`load_step_lt`): a step
takes a character and advances (`Mode.Advances`), or expands an entity, which weighs less than the
reference did, or goes down in rank (`Mode.Descends`). Each step function has its own lemma, which
`below_stepOn` puts together.
-/

namespace Markup.Reader

/-- Where a mode stands among the modes that follow one another on the same character. -/
@[simp] def Mode.rank : Mode → Nat
  | .digits (.text _) .. | .entityName (.text _) .. => 0
  | .numericReference (.text _) => 1
  | .reference (.text _) => 2
  | .text _ => 4
  | .textReturn _ | .markup | .endTag | .endTagRest _ | .comment _ | .skipped | .startTagRest
  | .rawMarkup _ | .rawEndTagRest _ => 5
  | .endTagName _ | .declaration | .declarationDash | .attributes _ | .rawEndTag .. => 6
  | .startTagName _ | .attributeNameEnd .. | .value _ => 7
  | .attributeName .. | .valueStart .. | .valueReturn _ | .digits (.value _) ..
  | .entityName (.value _) .. => 8
  | .numericReference (.value _) => 9
  | .reference (.value _) => 10

/-- The load of an input that is read in a mode, where `n` bounds the length of replacement
texts. -/
@[simp] def load (n : Nat) (input : Input) (mode : Mode) : Nat :=
  16 * (input.weight n + if mode.isHeld then input.unitWeight n else 0) + mode.rank

/-- A move leads to a load below `bound`, if it leads to another step at all. -/
def Below (n bound : Nat) (move : Move) : Prop :=
  ∀ s, move.2 = .running s → load n s.input s.mode < bound

variable {n bound : Nat} {s : State} {mode : Mode}

/-! ## Modes that lower the load -/

/-- Whether a mode may come after another on the same character. -/
@[simp] def Mode.Descends (mode next : Mode) : Prop :=
  (mode.isHeld = true ∧ next.isHeld = false) ∨ (mode.isHeld = next.isHeld ∧ next.rank < mode.rank)

/-- Whether a mode may come after another once a character has been taken. -/
@[simp] def Mode.Advances (mode next : Mode) : Prop :=
  next.isHeld = true → mode.isHeld = true ∨ next.rank < mode.rank

/-- There are fewer than 16 ranks, so the rank never outweighs a character. -/
theorem Mode.rank_lt (mode : Mode) : mode.rank < 16 := by
  unfold rank
  split <;> decide

/-- Going down lowers the load; a reference that ends gives its weight back. -/
theorem load_lt_of_descends {next : Mode} (input : Input) (h : mode.Descends next) :
    load n input next < load n input mode := by
  have hpos := input.unitWeight_pos n
  have hrank := next.rank_lt
  simp only [load]
  rcases h with ⟨hheld, hnext⟩ | ⟨hsame, hlt⟩
  · rw [hheld, hnext, if_pos rfl, if_neg Bool.false_ne_true]
    omega
  · rw [hsame]
    omega

/-- Taking a character lowers the load by its weight, of which a reference may take hold. -/
theorem load_consume_lt {next : Mode} {input : Input} {c : Char} (hc : input.pushback = some c)
    (h : mode.Advances next) : load n input.consume next < load n input mode := by
  have hpos := input.unitWeight_pos n
  have hunit := input.unitWeight_consume n
  have hweight := Input.weight_consume hc n
  have hrank := next.rank_lt
  simp only [load]
  by_cases hnext : next.isHeld = true
  · rw [if_pos hnext]
    rcases h hnext with hheld | hlt
    · rw [if_pos hheld]
      omega
    · omega
  · rw [if_neg hnext]
    omega

/-! ## Moves of known load -/

/-- A move that goes on is below a bound if the load after it is. -/
@[simp] theorem below_running {actions : List Action} :
    Below n bound (actions, .running s) ↔ load n s.input s.mode < bound :=
  ⟨fun h => h s rfl, fun h t ht => by cases ht; exact h⟩

/-- A move that stops is below every bound. -/
@[simp] theorem below_stopped {actions : List Action} {outcome : Outcome} :
    Below n bound (actions, .stopped outcome) := fun _ h => by cases h

@[simp] theorem below_goto : Below n bound (s.goto mode) ↔ load n s.input mode < bound :=
  below_running

@[simp] theorem below_change {r : Document × List Action} :
    Below n bound (s.change mode r) ↔ load n s.input mode < bound := below_running

@[simp] theorem below_report {cause : IssueCause} :
    Below n bound (s.report cause mode) ↔ load n s.input mode < bound := below_running

@[simp] theorem below_resume {site : Site} {text : String} :
    Below n bound (s.resume site text) ↔ load n s.input site.mode < bound := by
  cases site with
  | text place => exact below_goto
  | value v => exact below_goto

/-- The end of a numeric reference goes back to its site. -/
@[simp] theorem below_endNumeric {site : Site} {hexadecimal : Bool} {digits : List Char} :
    Below n bound (endNumeric s site hexadecimal digits) ↔ load n s.input site.mode < bound := by
  unfold endNumeric
  split
  · exact below_resume
  · exact below_running

/-- An entity that is expanded weighs less than the character for which a reference holds on. -/
theorem below_endEntity {g : Grammar} {site : Site} {name : String} {terminated : Bool}
    (h : load g.dtd.longestReplacement s.input (.entityName site name) ≤ bound) :
    Below g.dtd.longestReplacement bound (endEntity g s site name terminated) := by
  have hsite : load g.dtd.longestReplacement s.input site.mode < bound :=
    Nat.lt_of_lt_of_le (load_lt_of_descends _ (by cases site <;> simp [Site.mode])) h
  cases site with
  | value v => exact below_resume.2 hsite
  | text place =>
    simp only [endEntity, endTextEntity]
    split
    · exact below_change.2 hsite
    · split
      · exact below_report.2 hsite
      · rename_i entity hentity
        split
        · rename_i input hinput
          have hlt := Input.weight_pushEntity_lt hinput (Dtd.length_le_longestReplacement hentity)
          rw [below_running]
          simp only [load, Mode.isHeld, Mode.rank, Bool.false_eq_true, if_false, if_true] at h ⊢
          omega
        · exact below_report.2 hsite

/-- The end of an end tag goes back to the content. -/
@[simp] theorem below_endEndTag {g : Grammar} {name : Name} :
    Below n bound (endEndTag g s name) ↔ load n s.input (.text .content) < bound := by
  unfold endEndTag
  split
  · exact below_change
  · split
    · exact below_report
    · exact below_change

/-- The end of a start tag goes on with content. -/
@[simp] theorem below_endStartTag {tag : Tag} :
    Below n bound (endStartTag s tag) ↔ load n s.input (.text .content) < bound := by
  unfold endStartTag
  simp only
  split <;> exact below_change

@[simp] theorem below_endRaw :
    Below n bound (endRaw s) ↔ load n s.input (.text .content) < bound :=
  below_change

/-- The end of the name of a start tag goes on with the attributes, or with what is left of a tag
that is ignored. -/
theorem below_endStartTagName {g : Grammar} {name : Name}
    (hrest : load n s.input .startTagRest < bound)
    (hopen : ∀ tag, load n s.input (.attributes tag) < bound) :
    Below n bound (endStartTagName g s name) := by
  unfold endStartTagName
  split
  · exact below_report.2 hrest
  · exact below_change.2 (hopen _)

/-- The end of an attribute goes back to the attributes. -/
@[simp] theorem below_endAttribute {g : Grammar} {tag : Tag} {name : Name} {value : String} :
    Below n bound (endAttribute g s tag name value) ↔
      load n s.input (.attributes tag) < bound := by
  unfold endAttribute
  simp only
  split
  · exact below_report
  · exact below_goto

/-! ## Steps by mode -/

/-- The character that comes next has been put back, if there is one. -/
def State.HasPutBack (s : State) (c? : Option Char) : Prop :=
  ∀ c, c? = some c → s.input.pushback = some c

section

variable {g : Grammar} {c? : Option Char} {site : Site} {place : Place} {tag : Tag} {v : Value}
  {element : Element}

/-- A character is taken and the mode advances. -/
theorem below_take_goto {c : Char} {next : Mode} (hc : s.input.pushback = some c)
    (h : mode.Advances next) : Below n (load n s.input mode) (s.take.goto next) :=
  below_goto.2 (load_consume_lt hc h)

/-- No character is taken, but the mode goes down. -/
theorem below_goto_of_descends {next : Mode} (h : mode.Descends next) :
    Below n (load n s.input mode) (s.goto next) :=
  below_goto.2 (load_lt_of_descends _ h)

/-- Each character of text is taken, whatever it begins. -/
theorem below_text (hc : s.HasPutBack c?) :
    Below n (load n s.input (.text place)) (stepText s place c?) := by
  cases c? with
  | none => exact below_stopped
  | some c =>
    have hc := hc c rfl
    simp only [stepText]
    split
    · exact below_take_goto hc (by simp)
    · split
      · cases place with
        | content => exact below_take_goto hc (by simp)
        | raw element => exact below_take_goto hc (by simp)
      · split
        · exact below_take_goto hc (by simp)
        · exact below_goto.2 (load_consume_lt hc (by simp))

/-- A carriage return in text is settled at the next character. -/
theorem below_textReturn (hc : s.HasPutBack c?) :
    Below n (load n s.input (.textReturn place)) (stepTextReturn s place c?) := by
  unfold stepTextReturn
  by_cases hfeed : c? = some '\n'
  · simp only [hfeed, if_true]
    exact below_goto.2 (load_consume_lt (hc _ hfeed) (by simp))
  · simp only [hfeed, if_false]
    exact below_goto.2 (load_lt_of_descends _ (by simp))

/-- After an ampersand a reference begins, or the ampersand is text. -/
theorem below_reference (hc : s.HasPutBack c?) :
    Below n (load n s.input (.reference site)) (stepReference s site c?) := by
  have hends : (Mode.reference site).Descends site.mode := by
    cases site <;> simp [Site.mode]
  cases c? with
  | none => exact below_resume.2 (load_lt_of_descends _ hends)
  | some c =>
    have hc := hc c rfl
    simp only [stepReference]
    split
    · exact below_take_goto hc (by cases site <;> simp)
    · split
      · exact below_take_goto hc (by cases site <;> simp)
      · exact below_resume.2 (load_lt_of_descends _ hends)

/-- After `&#` an `x` is taken, and digits follow. -/
theorem below_numericReference (hc : s.HasPutBack c?) :
    Below n (load n s.input (.numericReference site)) (stepNumericReference s site c?) := by
  unfold stepNumericReference
  split
  · rename_i h
    obtain h | h := h
    · exact below_take_goto (hc _ h) (by cases site <;> simp)
    · exact below_take_goto (hc _ h) (by cases site <;> simp)
  · exact below_goto_of_descends (by cases site <;> simp)

/-- Each digit is taken, and what comes after the last ends the reference. -/
theorem below_digits {hexadecimal : Bool} {digits : List Char} (hc : s.HasPutBack c?) :
    Below n (load n s.input (.digits site hexadecimal digits))
      (stepDigits s site hexadecimal digits c?) := by
  have hends : Below n (load n s.input (.digits site hexadecimal digits))
      (endNumeric s site hexadecimal digits) :=
    below_endNumeric.2 (load_lt_of_descends _ (by cases site <;> simp [Site.mode]))
  cases c? with
  | none => exact hends
  | some c =>
    have hc := hc c rfl
    simp only [stepDigits]
    split
    · exact below_take_goto hc (by cases site <;> simp)
    · split
      · exact below_endNumeric.2 (load_consume_lt hc (by cases site <;> simp [Site.mode]))
      · exact hends

/-- Each character of a name is taken. At the end of the name an entity may be expanded, whose text
the weight of its reference allows for. -/
theorem below_entityName {name : String} (hc : s.HasPutBack c?) :
    Below g.dtd.longestReplacement (load g.dtd.longestReplacement s.input (.entityName site name))
      (stepEntityName g s site name c?) := by
  cases c? with
  | none => exact below_endEntity (Nat.le_refl _)
  | some c =>
    have hc := hc c rfl
    simp only [stepEntityName]
    split
    · exact below_take_goto hc (by cases site <;> simp)
    · split
      · exact below_endEntity (Nat.le_of_lt (load_consume_lt hc (by cases site <;> simp)))
      · exact below_endEntity (Nat.le_refl _)

/-- After `<` the next character begins markup, or `<` is text. -/
theorem below_markup (hc : s.HasPutBack c?) :
    Below n (load n s.input .markup) (stepMarkup s c?) := by
  have htext : Below n (load n s.input .markup) ((s.append "<").goto (.text .content)) :=
    below_goto.2 (load_lt_of_descends _ (by simp))
  cases c? with
  | none => exact htext
  | some c =>
    have hc := hc c rfl
    simp only [stepMarkup]
    split
    · exact below_take_goto hc (by simp)
    · split
      · exact below_take_goto hc (by simp)
      · split
        · exact below_running.2 (load_consume_lt hc (by simp))
        · split
          · exact below_running.2 (load_consume_lt hc (by simp))
          · exact htext

/-- After `</` a name begins, or `</` is text. -/
theorem below_endTag (hc : s.HasPutBack c?) :
    Below n (load n s.input .endTag) (stepEndTag s c?) := by
  have htext : Below n (load n s.input .endTag) ((s.append "</").goto (.text .content)) :=
    below_goto.2 (load_lt_of_descends _ (by simp))
  cases c? with
  | none => exact htext
  | some c =>
    simp only [stepEndTag]
    split
    · exact below_running.2 (load_consume_lt (hc c rfl) (by simp))
    · exact htext

/-- Each character of the name of an end tag is taken. -/
theorem below_endTagName {name : String} (hc : s.HasPutBack c?) :
    Below n (load n s.input (.endTagName name)) (stepEndTagName s name c?) := by
  cases c? with
  | none => exact below_goto_of_descends (by simp)
  | some c =>
    simp only [stepEndTagName]
    split
    · exact below_take_goto (hc c rfl) (by simp)
    · exact below_goto_of_descends (by simp)

/-- The rest of a tag lowers the load if its end leads back to text. -/
theorem below_tagRest {done : State → Move} (hc : s.HasPutBack c?) (hheld : mode.isHeld = false)
    (hrank : 4 < mode.rank)
    (hdone : ∀ t, load n t.input (.text .content) < load n s.input mode →
      Below n (load n s.input mode) (done t)) :
    Below n (load n s.input mode) (stepTagRest s mode done c?) := by
  have hend : Below n (load n s.input mode) (done s) :=
    hdone s (load_lt_of_descends _ (.inr ⟨hheld, hrank⟩))
  cases c? with
  | none => exact hend
  | some c =>
    have hc := hc c rfl
    simp only [stepTagRest]
    split
    · exact hdone _ (load_consume_lt hc (by simp))
    · split
      · exact hend
      · exact below_take_goto hc (by simp)

/-- After `<!` a dash may begin a comment; otherwise the markup is skipped. -/
theorem below_declaration {dashed : Mode} (hc : s.HasPutBack c?) (hadvances : mode.Advances dashed)
    (hdescends : mode.Descends .skipped) :
    Below n (load n s.input mode) (stepDeclaration s dashed c?) := by
  unfold stepDeclaration
  split
  · rename_i hdash
    exact below_take_goto (hc _ hdash) hadvances
  · exact below_goto_of_descends hdescends

/-- Each character of a comment is taken. -/
theorem below_comment {dashes : Nat} (hc : s.HasPutBack c?) :
    Below n (load n s.input (.comment dashes)) (stepComment s dashes c?) := by
  cases c? with
  | none => exact below_goto_of_descends (by simp)
  | some c =>
    have hc := hc c rfl
    simp only [stepComment]
    split
    · exact below_take_goto hc (by simp)
    · split
      · exact below_take_goto hc (by simp)
      · exact below_take_goto hc (by simp)

/-- Each character of skipped markup is taken. -/
theorem below_skipped (hc : s.HasPutBack c?) :
    Below n (load n s.input .skipped) (stepSkipped s c?) := by
  cases c? with
  | none => exact below_goto_of_descends (by simp)
  | some c =>
    refine below_take_goto (hc c rfl) ?_
    split <;> simp

/-- Each character of the name of a start tag is taken. -/
theorem below_startTagName {name : String} (hc : s.HasPutBack c?) :
    Below n (load n s.input (.startTagName name)) (stepStartTagName g s name c?) := by
  have hend : Below n (load n s.input (.startTagName name)) (endStartTagName g s (.fold name)) :=
    below_endStartTagName (load_lt_of_descends _ (by simp))
      (fun _ => load_lt_of_descends _ (by simp))
  cases c? with
  | none => exact hend
  | some c =>
    simp only [stepStartTagName]
    split
    · exact below_take_goto (hc c rfl) (by simp)
    · exact hend

/-- Before an attribute, blanks are passed over. -/
theorem below_attributes (hc : s.HasPutBack c?) :
    Below n (load n s.input (.attributes tag)) (stepAttributes s tag c?) := by
  have hend : Below n (load n s.input (.attributes tag)) (endStartTag s tag) :=
    below_endStartTag.2 (load_lt_of_descends _ (by simp))
  cases c? with
  | none => exact hend
  | some c =>
    have hc := hc c rfl
    simp only [stepAttributes]
    split
    · exact below_take_goto hc (by simp)
    · split
      · exact below_endStartTag.2 (load_consume_lt hc (by simp))
      · split
        · exact hend
        · split
          · exact below_take_goto hc (by simp)
          · split
            · exact below_take_goto hc (by simp)
            · exact below_report.2 (load_consume_lt hc (by simp))

/-- Each character of the name of an attribute is taken. -/
theorem below_attributeName {name : String} (hc : s.HasPutBack c?) :
    Below n (load n s.input (.attributeName tag name)) (stepAttributeName s tag name c?) := by
  cases c? with
  | none => exact below_goto_of_descends (by simp)
  | some c =>
    simp only [stepAttributeName]
    split
    · exact below_take_goto (hc c rfl) (by simp)
    · exact below_goto_of_descends (by simp)

/-- After the name of an attribute there may be a value. -/
theorem below_attributeNameEnd {name : Name} (hc : s.HasPutBack c?) :
    Below n (load n s.input (.attributeNameEnd tag name))
      (stepAttributeNameEnd g s tag name c?) := by
  have hend : Below n (load n s.input (.attributeNameEnd tag name))
      (endAttribute g s tag name "") :=
    below_endAttribute.2 (load_lt_of_descends _ (by simp))
  cases c? with
  | none => exact hend
  | some c =>
    have hc := hc c rfl
    simp only [stepAttributeNameEnd]
    split
    · exact below_take_goto hc (by simp)
    · split
      · exact below_take_goto hc (by simp)
      · exact hend

/-- The first character of a value tells whether it is quoted. -/
theorem below_valueStart {name : Name} (hc : s.HasPutBack c?) :
    Below n (load n s.input (.valueStart tag name)) (stepValueStart s tag name c?) := by
  cases c? with
  | none => exact below_goto_of_descends (by simp)
  | some c =>
    have hc := hc c rfl
    simp only [stepValueStart]
    split
    · exact below_take_goto hc (by simp)
    · split
      · exact below_take_goto hc (by simp)
      · exact below_goto_of_descends (by simp)

/-- The end of a value leads back among the attributes, and a reference in it is not held. -/
theorem below_value (hc : s.HasPutBack c?) :
    Below n (load n s.input (.value v)) (stepValue g s v c?) := by
  have hend : Below n (load n s.input (.value v)) (endAttribute g s v.tag v.name v.text) :=
    below_endAttribute.2 (load_lt_of_descends _ (by simp))
  unfold stepValue
  cases c? with
  | none => cases v.mark <;> exact hend
  | some c =>
    have hc := hc c rfl
    split
    · simp only [stepQuotedValue]
      split
      · exact below_endAttribute.2 (load_consume_lt hc (by simp))
      · split
        · exact below_take_goto hc (by simp)
        · split
          · exact below_take_goto hc (by simp)
          · exact below_take_goto hc (by simp)
    · simp only [stepBareValue]
      split
      · exact hend
      · split
        · exact below_take_goto hc (by simp)
        · exact below_take_goto hc (by simp)

/-- A carriage return in a value is settled at the next character. -/
theorem below_valueReturn (hc : s.HasPutBack c?) :
    Below n (load n s.input (.valueReturn v)) (stepValueReturn s v c?) := by
  unfold stepValueReturn
  by_cases hfeed : c? = some '\n'
  · simp only [hfeed, if_true]
    exact below_take_goto (hc _ hfeed) (by simp)
  · simp only [hfeed, if_false]
    exact below_goto_of_descends (by simp)

/-- In raw text `<` may begin the end tag of the element. -/
theorem below_rawMarkup (hc : s.HasPutBack c?) :
    Below n (load n s.input (.rawMarkup element)) (stepRawMarkup s element c?) := by
  unfold stepRawMarkup
  split
  · rename_i hslash
    exact below_take_goto (hc _ hslash) (by simp)
  · exact below_goto.2 (load_lt_of_descends _ (by simp))

/-- Each character of what may be the end tag of a raw element is taken. -/
theorem below_rawEndTag {expected : List Char} {seen : String} (hc : s.HasPutBack c?) :
    Below n (load n s.input (.rawEndTag element expected seen))
      (stepRawEndTag s element expected seen c?) := by
  have htext : Below n (load n s.input (.rawEndTag element expected seen))
      ((s.append seen).goto (.text (.raw element))) :=
    below_goto.2 (load_lt_of_descends _ (by simp))
  unfold stepRawEndTag
  split
  · split
    · exact below_take_goto (hc _ rfl) (by simp)
    · exact htext
  · exact htext
  · split
    · exact htext
    · exact below_goto_of_descends (by simp)

end

/-- Every step on a character that has been put back, or on the end of the input, lowers the
load. -/
theorem below_stepOn (g : Grammar) (s : State) (c? : Option Char) (hc : s.HasPutBack c?) :
    Below g.dtd.longestReplacement (load g.dtd.longestReplacement s.input s.mode)
      (stepOn g s c?) := by
  unfold stepOn
  split <;> rename_i hmode <;> rw [hmode]
  · exact below_text hc
  · exact below_textReturn hc
  · exact below_reference hc
  · exact below_numericReference hc
  · exact below_digits hc
  · exact below_entityName hc
  · exact below_markup hc
  · exact below_endTag hc
  · exact below_endTagName hc
  · exact below_tagRest hc rfl (by simp) (fun _ => below_endEndTag.2)
  · exact below_declaration hc (by simp) (by simp)
  · exact below_declaration hc (by simp) (by simp)
  · exact below_comment hc
  · exact below_skipped hc
  · exact below_startTagName hc
  · exact below_tagRest hc rfl (by simp) (fun _ => below_goto.2)
  · exact below_attributes hc
  · exact below_attributeName hc
  · exact below_attributeNameEnd hc
  · exact below_valueStart hc
  · exact below_value hc
  · exact below_valueReturn hc
  · exact below_rawMarkup hc
  · exact below_rawEndTag hc
  · exact below_tagRest hc rfl (by simp) (fun _ => below_endRaw.2)

/-- Every step that leads to another lowers the load. -/
theorem load_step_lt {g : Grammar} {s t : State} (h : (step g s).2 = .running t) :
    load g.dtd.longestReplacement t.input t.mode <
      load g.dtd.longestReplacement s.input s.mode := by
  unfold step at h
  split at h
  · cases h
  · rename_i c? input hpeek
    have hc : ∀ c, c? = some c → input.pushback = some c := by
      rintro c rfl
      exact Input.pushback_of_peek hpeek
    have hlt := below_stepOn g { s with input } c? hc t h
    refine Nat.lt_of_lt_of_le hlt ?_
    have hweight := Input.weight_peek_le hpeek g.dtd.longestReplacement
    simp only [Input.weight_hold] at hweight
    simp only [load]
    split
    · rename_i hheld
      have hunit := Input.unitWeight_peek hpeek hheld g.dtd.longestReplacement
      simp only [Input.unitWeight_hold] at hunit
      omega
    · omega

end Markup.Reader
