import Markup.Proofs.Reader.Steps

/-!
# The reader stays in sound states

One lemma for each mode says that a step in this mode proceeds (`Proceeds`), for any state that is
sound and any character that comes next. Together they are `proceeds_step`, so the reader only gets
to sound states (`Reaches.sound`).
-/

namespace Markup.Reader

section

variable {g : Grammar} {s : State} {c? : Option Char} {place : Place} {site : Site} {e : Element}

/-! ## Text -/

/-- The element of raw text is open, so its name can be spelt. -/
theorem isToken_of_raw {s : OpenElements} (hs : s.Sound g.dtd) (h : Place.Fits s (.raw e)) :
    isToken e.name.text = true := by
  obtain ⟨hcurrent, -⟩ := h
  exact (hs.spells_of_current hcurrent).token

/-- Nothing is withheld in text, so only the text itself counts. -/
theorem rawSound_text {t : State} (hmode : t.mode = .text place)
    (h : ∀ e, place = .raw e → e.content = .cdata → e.Verbatim t.document.pending t.ahead) :
    t.RawSound := by
  cases place with
  | content => exact rawSound_of_none (congrArg Mode.withheld? hmode)
  | raw e => exact rawSound_of_withheld (congrArg Mode.withheld? hmode) (h e rfl)

/-- Text proceeds: at the end of the source the document is finished, at `<` or `&` markup or a
reference may begin, and other characters are text. -/
theorem proceeds_text (hs : s.Sound g) (hmode : s.mode = .text place) (hsees : s.Sees c?) :
    Proceeds g s (stepText s place c?) := by
  have hfits := hs.fits hmode
  have helement : s.mode.element? = none := State.element?_of_mode hmode rfl
  cases c? with
  | none => exact ⟨place, s.input.line, hmode, hsees, rfl⟩
  | some c =>
    have hverbatim (e : Element) (hplace : place = .raw e) (hcdata : e.content = .cdata) :
        e.Verbatim s.document.pending (c :: s.take.ahead) := by
      have hraw := hs.raw e [] (by rw [hmode, hplace]; rfl) hcdata
      rwa [List.nil_append, hsees] at hraw
    simp only [stepText]
    split
    · rename_i hreference
      exact proceeds_goto hs rfl ⟨hfits, hreference.2⟩ helement.symm rfl
    · split
      · rename_i hmarkup
        subst hmarkup
        cases place with
        | content => exact proceeds_goto hs rfl hfits helement.symm rfl
        | raw e =>
          exact proceeds_quiet hs rfl noMisplaced rfl hfits helement.symm
            (rawSound_of_withheld rfl (hverbatim e rfl))
      · rename_i hmarkup
        split
        · -- a carriage return stands for a line end, which stops the text as well
          rename_i hreturn
          subst hreturn
          refine proceeds_quiet hs rfl noMisplaced rfl hfits helement.symm ?_
          cases place with
          | content => exact rawSound_of_none rfl
          | raw e =>
            refine rawSound_of_withheld rfl fun hcdata => ?_
            exact (hverbatim e rfl hcdata).replace (isToken_of_raw hs.elements hfits) (by decide)
              (by decide)
        · rename_i hreturn
          refine proceeds_quiet hs rfl noMisplaced rfl hfits helement.symm
            (rawSound_text rfl ?_)
          intro e hplace hcdata
          show e.Verbatim (s.document.pending ++ String.singleton c) s.take.ahead
          refine Element.Verbatim.append ?_ ?_ ?_
          · rw [String.toList_singleton]
            exact hverbatim e hplace hcdata
          · simpa using Ne.symm hreturn
          · refine undelimited_of_forall_ne fun d hd => ?_
            simp only [String.toList_singleton, List.mem_singleton] at hd
            rw [hd]
            exact hmarkup

/-- After a carriage return the line end is text, and a line feed after it is left out. -/
theorem proceeds_textReturn (hs : s.Sound g) (hmode : s.mode = .textReturn place) :
    Proceeds g s (stepTextReturn s place c?) := by
  have hfits := hs.fits hmode
  have helement : s.mode.element? = none := State.element?_of_mode hmode rfl
  have happend {t : State} (hdocument : t.document = s.document) :
      Proceeds g s ((t.append "\n").goto (.text place)) := by
    refine proceeds_quiet hs rfl noMisplaced ?_ hfits helement.symm (rawSound_text rfl ?_)
    · show t.document.elements = _
      rw [hdocument]
    · intro e hplace hcdata
      have hraw := hs.raw e ['\n'] (by rw [hmode, hplace]; rfl) hcdata
      subst hplace
      show e.Verbatim (t.document.pending ++ "\n") t.ahead
      rw [hdocument]
      refine Element.Verbatim.append ?_ (by decide)
        (undelimited_of_forall_ne fun d hd => ?_)
      · exact hraw.replace (isToken_of_raw hs.elements hfits) (by decide) (by decide)
      · rw [List.mem_singleton.1 hd]
        decide
  unfold stepTextReturn
  split
  · exact happend rfl
  · exact happend rfl

/-! ## References -/

/-- After `&` a reference begins, or the mark is text. -/
theorem proceeds_reference (hs : s.Sound g) (hmode : s.mode = .reference site) :
    Proceeds g s (stepReference s site c?) := by
  have hfits := hs.fits hmode
  have helement : site.element? = s.mode.element? :=
    (State.element?_of_mode hmode rfl).symm
  unfold stepReference
  split
  · split
    · exact proceeds_goto hs rfl hfits helement rfl
    · split
      · exact proceeds_goto hs rfl hfits helement rfl
      · exact proceeds_resume hs rfl hfits helement _
  · exact proceeds_resume hs rfl hfits helement _

/-- After `&#` digits follow, or the marks are text. -/
theorem proceeds_numericReference (hs : s.Sound g) (hmode : s.mode = .numericReference site) :
    Proceeds g s (stepNumericReference s site c?) := by
  have hfits := hs.fits hmode
  have helement : site.element? = s.mode.element? :=
    (State.element?_of_mode hmode rfl).symm
  unfold stepNumericReference
  split
  · exact proceeds_goto hs rfl hfits helement rfl
  · exact proceeds_goto hs rfl hfits helement rfl

/-- Digits go on, or the numeric reference ends. -/
theorem proceeds_digits {hexadecimal : Bool} {digits : List Char} (hs : s.Sound g)
    (hmode : s.mode = .digits site hexadecimal digits) :
    Proceeds g s (stepDigits s site hexadecimal digits c?) := by
  have hfits := hs.fits hmode
  have helement : site.element? = s.mode.element? :=
    (State.element?_of_mode hmode rfl).symm
  unfold stepDigits
  split
  · split
    · exact proceeds_goto hs rfl hfits helement rfl
    · split
      · exact proceeds_endNumeric hs rfl hfits helement
      · exact proceeds_endNumeric hs rfl hfits helement
  · exact proceeds_endNumeric hs rfl hfits helement

/-- The name of an entity goes on, or the reference ends. -/
theorem proceeds_entityName {name : String} (hs : s.Sound g)
    (hmode : s.mode = .entityName site name) : Proceeds g s (stepEntityName g s site name c?) := by
  have hfits := hs.fits hmode
  have helement : site.element? = s.mode.element? :=
    (State.element?_of_mode hmode rfl).symm
  unfold stepEntityName
  split
  · split
    · exact proceeds_goto hs rfl hfits helement rfl
    · split
      · exact proceeds_endEntity hs hmode rfl
      · exact proceeds_endEntity hs hmode rfl
  · exact proceeds_endEntity hs hmode rfl

/-! ## Markup -/

/-- Going on with text after characters that turn out to be no markup. -/
theorem proceeds_append_content {mode : Mode} (hs : s.Sound g) (hmode : s.mode = mode)
    (helement : mode.element? = none) (hmarkup : s.document.elements.takesMarkup = true)
    (text : String) : Proceeds g s ((s.append text).goto (.text .content)) := by
  subst hmode
  exact proceeds_goto hs rfl hmarkup helement.symm rfl

/-- After `<` a tag, a comment or a declaration begins, or the mark is text. -/
theorem proceeds_markup (hs : s.Sound g) (hmode : s.mode = .markup) :
    Proceeds g s (stepMarkup s c?) := by
  have hfits : s.document.elements.takesMarkup = true := hs.fits hmode
  have helement : s.mode.element? = none := State.element?_of_mode hmode rfl
  unfold stepMarkup
  split
  · split
    · exact proceeds_goto hs rfl hfits helement.symm rfl
    · split
      · exact proceeds_goto hs rfl hfits helement.symm rfl
      · split
        · refine proceeds_quiet hs rfl (fun cause hcause => ?_) rfl hfits helement.symm
            (rawSound_of_none rfl)
          rw [List.mem_singleton.1 hcause]
          rfl
        · split
          · rename_i hstart
            exact proceeds_quiet hs rfl noMisplaced rfl ⟨hfits, isToken_singleton hstart⟩
              helement.symm (rawSound_of_none rfl)
          · exact proceeds_append_content hs hmode rfl hfits _
  · exact proceeds_append_content hs hmode rfl hfits _

/-- After `</` the name of an end tag begins, or the marks are text. -/
theorem proceeds_endTag (hs : s.Sound g) (hmode : s.mode = .endTag) :
    Proceeds g s (stepEndTag s c?) := by
  have hfits : s.document.elements.takesMarkup = true := hs.fits hmode
  have helement : s.mode.element? = none := State.element?_of_mode hmode rfl
  unfold stepEndTag
  split
  · split
    · rename_i hstart
      exact proceeds_quiet hs rfl noMisplaced rfl ⟨hfits, isToken_singleton hstart⟩ helement.symm
        (rawSound_of_none rfl)
    · exact proceeds_append_content hs hmode rfl hfits _
  · exact proceeds_append_content hs hmode rfl hfits _

/-- The name of an end tag goes on, or is complete. -/
theorem proceeds_endTagName {name : String} (hs : s.Sound g) (hmode : s.mode = .endTagName name) :
    Proceeds g s (stepEndTagName s name c?) := by
  have hfits := hs.fits hmode
  obtain ⟨hmarkup, htoken⟩ := hfits
  have helement : s.mode.element? = none := State.element?_of_mode hmode rfl
  unfold stepEndTagName
  split
  · split
    · rename_i hchar
      exact proceeds_goto hs rfl ⟨hmarkup, isToken_push htoken hchar⟩ helement.symm rfl
    · exact proceeds_goto hs rfl ⟨hmarkup, isToken_fold htoken⟩ helement.symm rfl
  · exact proceeds_goto hs rfl ⟨hmarkup, isToken_fold htoken⟩ helement.symm rfl

/-- The rest of a tag goes on, or the tag is done. -/
theorem proceeds_tagRest {mode : Mode} {done : State → Move}
    (hgoto : c? ≠ none → Proceeds g s (s.take.goto mode))
    (hdone : ∀ t : State, t.document = s.document → Proceeds g s (done t)) :
    Proceeds g s (stepTagRest s mode done c?) := by
  unfold stepTagRest
  split
  · split
    · exact hdone _ rfl
    · split
      · exact hdone _ rfl
      · exact hgoto (Option.some_ne_none _)
  · exact hdone _ rfl

/-- What follows the name of an end tag is passed over. -/
theorem proceeds_endTagRest {name : Name} (hs : s.Sound g) (hmode : s.mode = .endTagRest name) :
    Proceeds g s (stepTagRest s (.endTagRest name) (endEndTag g · name) c?) := by
  have hfits := hs.fits hmode
  refine proceeds_tagRest (fun _ => ?_) fun t ht => proceeds_endEndTag hs hmode ht
  exact proceeds_goto hs rfl hfits (congrArg Mode.element? hmode).symm rfl

/-- What is left of a skipped start tag is passed over. -/
theorem proceeds_startTagRest (hs : s.Sound g) (hmode : s.mode = .startTagRest) :
    Proceeds g s (stepTagRest s .startTagRest (·.goto (.text .content)) c?) := by
  have hfits : s.document.elements.takesMarkup = true := hs.fits hmode
  have helement : s.mode.element? = none := State.element?_of_mode hmode rfl
  refine proceeds_tagRest (fun _ => proceeds_goto hs rfl hfits helement.symm rfl) fun t ht => ?_
  exact proceeds_goto hs (by rw [ht]) hfits helement.symm rfl

/-- What is skipped changes nothing. -/
theorem proceeds_declaration {dashed : Mode} (hs : s.Sound g)
    (hmarkup : s.document.elements.takesMarkup = true) (helement : s.mode.element? = none)
    (hfits : dashed.Fits g s.document.elements) (hdashed : dashed.element? = none)
    (hraw : dashed.withheld? = none) : Proceeds g s (stepDeclaration s dashed c?) := by
  unfold stepDeclaration
  split
  · exact proceeds_goto hs rfl hfits (hdashed.trans helement.symm) hraw
  · exact proceeds_goto hs rfl hmarkup helement.symm rfl

/-- A comment goes on until two dashes and `>`. -/
theorem proceeds_comment {dashes : Nat} (hs : s.Sound g) (hmode : s.mode = .comment dashes) :
    Proceeds g s (stepComment s dashes c?) := by
  have hfits : s.document.elements.takesMarkup = true := hs.fits hmode
  have helement : s.mode.element? = none := State.element?_of_mode hmode rfl
  unfold stepComment
  split
  · split
    · exact proceeds_goto hs rfl hfits helement.symm rfl
    · split
      · exact proceeds_goto hs rfl hfits helement.symm rfl
      · exact proceeds_goto hs rfl hfits helement.symm rfl
  · exact proceeds_goto hs rfl hfits helement.symm rfl

/-- A declaration or an instruction is passed over. -/
theorem proceeds_skipped (hs : s.Sound g) (hmode : s.mode = .skipped) :
    Proceeds g s (stepSkipped s c?) := by
  have hfits : s.document.elements.takesMarkup = true := hs.fits hmode
  have helement : s.mode.element? = none := State.element?_of_mode hmode rfl
  unfold stepSkipped
  split
  · split
    · exact proceeds_goto hs rfl hfits helement.symm rfl
    · exact proceeds_goto hs rfl hfits helement.symm rfl
  · exact proceeds_goto hs rfl hfits helement.symm rfl

/-! ## Start tags -/

/-- The name of a start tag goes on, or is complete. -/
theorem proceeds_startTagName {name : String} (hs : s.Sound g)
    (hmode : s.mode = .startTagName name) : Proceeds g s (stepStartTagName g s name c?) := by
  have hfits := hs.fits hmode
  obtain ⟨hmarkup, htoken⟩ := hfits
  have helement : s.mode.element? = none := State.element?_of_mode hmode rfl
  unfold stepStartTagName
  split
  · split
    · rename_i hchar
      exact proceeds_goto hs rfl ⟨hmarkup, isToken_push htoken hchar⟩ helement.symm rfl
    · exact proceeds_endStartTagName hs hmode rfl
  · exact proceeds_endStartTagName hs hmode rfl

/-- Between attributes a name begins, or the tag ends. -/
theorem proceeds_attributes {tag : Tag} (hs : s.Sound g) (hmode : s.mode = .attributes tag) :
    Proceeds g s (stepAttributes s tag c?) := by
  have hfits := hs.fits hmode
  have helement : s.mode.element? = some tag.element :=
    State.element?_of_mode hmode rfl
  unfold stepAttributes
  split
  · split
    · exact proceeds_goto hs rfl hfits helement.symm rfl
    · split
      · exact proceeds_endStartTag hs hmode rfl
      · split
        · exact proceeds_endStartTag hs hmode rfl
        · split
          · exact proceeds_goto hs rfl hfits helement.symm rfl
          · split
            · rename_i hstart
              exact proceeds_goto hs rfl ⟨hfits, isToken_singleton hstart⟩ helement.symm rfl
            · exact proceeds_report hs rfl rfl hfits helement.symm (rawSound_of_none rfl)
  · exact proceeds_endStartTag hs hmode rfl

/-- The name of an attribute goes on, or is complete. -/
theorem proceeds_attributeName {tag : Tag} {name : String} (hs : s.Sound g)
    (hmode : s.mode = .attributeName tag name) :
    Proceeds g s (stepAttributeName s tag name c?) := by
  have hfits := hs.fits hmode
  obtain ⟨htag, htoken⟩ := hfits
  have helement : s.mode.element? = some tag.element :=
    State.element?_of_mode hmode rfl
  unfold stepAttributeName
  split
  · split
    · rename_i hchar
      exact proceeds_goto hs rfl ⟨htag, isToken_push htoken hchar⟩ helement.symm rfl
    · exact proceeds_goto hs rfl ⟨htag, isToken_fold htoken⟩ helement.symm rfl
  · exact proceeds_goto hs rfl ⟨htag, isToken_fold htoken⟩ helement.symm rfl

/-- After the name of an attribute its value follows, or it has none. -/
theorem proceeds_attributeNameEnd {tag : Tag} {name : Name} (hs : s.Sound g)
    (hmode : s.mode = .attributeNameEnd tag name) :
    Proceeds g s (stepAttributeNameEnd g s tag name c?) := by
  have hfits := hs.fits hmode
  obtain ⟨htag, htoken⟩ := hfits
  have helement : s.mode.element? = some tag.element :=
    State.element?_of_mode hmode rfl
  unfold stepAttributeNameEnd
  split
  · split
    · exact proceeds_goto hs rfl ⟨htag, htoken⟩ helement.symm rfl
    · split
      · exact proceeds_goto hs rfl ⟨htag, htoken⟩ helement.symm rfl
      · exact proceeds_endAttribute hs rfl htag htoken helement
  · exact proceeds_endAttribute hs rfl htag htoken helement

/-- A value begins, with or without a quotation mark. -/
theorem proceeds_valueStart {tag : Tag} {name : Name} (hs : s.Sound g)
    (hmode : s.mode = .valueStart tag name) : Proceeds g s (stepValueStart s tag name c?) := by
  have hfits := hs.fits hmode
  obtain ⟨htag, htoken⟩ := hfits
  have helement : s.mode.element? = some tag.element :=
    State.element?_of_mode hmode rfl
  unfold stepValueStart
  split
  · split
    · exact proceeds_goto hs rfl ⟨htag, htoken⟩ helement.symm rfl
    · split
      · exact proceeds_goto hs rfl ⟨htag, htoken⟩ helement.symm rfl
      · exact proceeds_goto hs rfl ⟨htag, htoken⟩ helement.symm rfl
  · exact proceeds_goto hs rfl ⟨htag, htoken⟩ helement.symm rfl

/-- A value goes on, or ends and joins the tag. -/
theorem proceeds_value {v : Value} (hs : s.Sound g) (hmode : s.mode = .value v) :
    Proceeds g s (stepValue g s v c?) := by
  have hfits : v.Fits g s.document.elements := hs.fits hmode
  have helement : s.mode.element? = some v.tag.element :=
    State.element?_of_mode hmode rfl
  have hend {t : State} (hdocument : t.document = s.document) :
      Proceeds g s (endAttribute g t v.tag v.name v.text) :=
    proceeds_endAttribute hs (by rw [hdocument]) hfits.tag hfits.name helement
  have hgoto {text : String} : Proceeds g s (s.take.goto (.value { v with text })) :=
    proceeds_goto hs rfl ⟨hfits.tag, hfits.name⟩ helement.symm rfl
  unfold stepValue
  split
  · unfold stepQuotedValue
    split
    · split
      · exact hend rfl
      · split
        · exact proceeds_goto hs rfl hfits helement.symm rfl
        · split
          · exact proceeds_goto hs rfl hfits helement.symm rfl
          · exact hgoto
    · exact hend rfl
  · unfold stepBareValue
    split
    · split
      · exact hend rfl
      · split
        · exact proceeds_goto hs rfl hfits helement.symm rfl
        · exact hgoto
    · exact hend rfl

/-- After a carriage return in a value the line end is part of it. -/
theorem proceeds_valueReturn {v : Value} (hs : s.Sound g) (hmode : s.mode = .valueReturn v) :
    Proceeds g s (stepValueReturn s v c?) := by
  have hfits : v.Fits g s.document.elements := hs.fits hmode
  have helement : s.mode.element? = some v.tag.element :=
    State.element?_of_mode hmode rfl
  unfold stepValueReturn
  split
  · exact proceeds_goto hs rfl ⟨hfits.tag, hfits.name⟩ helement.symm rfl
  · exact proceeds_goto hs rfl ⟨hfits.tag, hfits.name⟩ helement.symm rfl

/-! ## Raw text -/

/-- Going on with raw text after characters that turn out not to end it. -/
theorem proceeds_append_raw {withheld : List Char} {text : String} (hs : s.Sound g)
    (helement : s.mode.element? = none) (hplace : Place.Fits s.document.elements (.raw e))
    (hwithheld : s.mode.withheld? = some (e, withheld)) (htext : text.toList = withheld)
    (hreturn : '\r' ∉ withheld) (hmore : Undelimited e.name.text.toList withheld s.ahead) :
    Proceeds g s ((s.append text).goto (.text (.raw e))) := by
  subst htext
  refine proceeds_quiet hs rfl noMisplaced rfl hplace helement.symm (rawSound_text rfl ?_)
  intro x hx hcdata
  obtain rfl : e = x := by
    cases hx
    rfl
  exact (hs.raw e _ hwithheld hcdata).append hreturn hmore

/-- After `<` in raw text an end tag may begin. -/
theorem proceeds_rawMarkup (hs : s.Sound g) (hmode : s.mode = .rawMarkup e) (hsees : s.Sees c?) :
    Proceeds g s (stepRawMarkup s e c?) := by
  have hplace : Place.Fits s.document.elements (.raw e) := hs.fits hmode
  have helement : s.mode.element? = none := State.element?_of_mode hmode rfl
  have hwithheld : s.mode.withheld? = some (e, ['<']) :=
    congrArg Mode.withheld? hmode
  unfold stepRawMarkup
  split
  · rename_i hslash
    subst hslash
    refine proceeds_quiet hs rfl noMisplaced rfl ⟨hplace, [], rfl, rfl⟩ helement.symm
      (rawSound_of_withheld rfl fun hcdata => ?_)
    have hraw := hs.raw e _ hwithheld hcdata
    rwa [hsees] at hraw
  · rename_i hslash
    refine proceeds_append_raw hs helement hplace hwithheld rfl (by decide) ⟨?_, trivial⟩
    cases c? with
    | none =>
      rw [List.nil_append, hsees]
      rfl
    | some c =>
      have hc : c ≠ '/' := fun h => hslash (congrArg some h)
      rw [List.nil_append, hsees]
      simp [beginsEndTag, hc]

/-- The name of the withheld end tag goes on, or what was withheld turns out to be text. -/
theorem proceeds_rawEndTag {expected : List Char} {seen : String} (hs : s.Sound g)
    (hmode : s.mode = .rawEndTag e expected seen) (hsees : s.Sees c?) :
    Proceeds g s (stepRawEndTag s e expected seen c?) := by
  have hfits := hs.fits hmode
  obtain ⟨hplace, spelling, hseen, hspelling⟩ := hfits
  have helement : s.mode.element? = none := State.element?_of_mode hmode rfl
  have hwithheld : s.mode.withheld? = some (e, seen.toList) :=
    congrArg Mode.withheld? hmode
  have hname : ∀ x ∈ e.name.text.toList, isNameChar x = true := fun _ =>
    isNameChar_of_mem_token (isToken_of_raw hs.elements hplace)
  have hletters := isNameChar_of_spelling hname hspelling
  have htext (hrest : beginsWithName expected s.ahead = false) :
      Proceeds g s ((s.append seen).goto (.text (.raw e))) := by
    refine proceeds_append_raw hs helement hplace hwithheld rfl ?_ ?_
    · rw [hseen]
      intro hreturn
      simp only [List.mem_cons, Char.reduceEq, false_or] at hreturn
      have := hletters _ hreturn
      simp [isNameChar] at this
    · rw [hseen]
      exact undelimited_withheld hname hspelling hrest
  unfold stepRawEndTag
  split
  · rename_i x expected c
    split
    · rename_i hc
      refine proceeds_quiet hs rfl noMisplaced rfl ⟨hplace, spelling ++ [c], ?_, ?_⟩
        helement.symm ?_
      · rw [String.toList_push, hseen]
        rfl
      · rw [← hspelling]
        simp [hc]
      · refine rawSound_of_withheld rfl fun hcdata => ?_
        have hraw := hs.raw e _ hwithheld hcdata
        rw [hsees] at hraw
        show e.Verbatim s.document.pending ((seen.push c).toList ++ s.take.ahead)
        rwa [String.toList_push, List.append_assoc]
    · rename_i hc
      refine htext ?_
      rw [hsees]
      simp [beginsWithName, hc]
  · refine htext ?_
    rw [hsees]
    rfl
  · have hhead : s.ahead.head? = c? := by
      cases c? with
      | none =>
        rw [hsees]
        rfl
      | some c =>
        rw [hsees]
        rfl
    split
    · rename_i hchar
      refine htext ?_
      rw [beginsWithName, hhead, hchar]
      rfl
    · refine proceeds_quiet hs rfl noMisplaced rfl hplace helement.symm
        (rawSound_of_withheld rfl fun hcdata => ?_)
      have hraw := hs.raw e _ hwithheld hcdata
      rw [hseen] at hraw
      exact hraw.replace (isToken_of_raw hs.elements hplace) (by decide) (by decide)

/-- The end tag of an element with raw text closes it. -/
theorem proceeds_endRaw {t : State} (hs : s.Sound g) (hmode : s.mode = .rawEndTagRest e)
    (hdocument : t.document = s.document) : Proceeds g s (endRaw t) := by
  have hfits := hs.fits hmode
  obtain ⟨hcurrent, -⟩ := hfits
  have helements : (s.document.closeCurrent t.input.line).1.elements = s.document.elements.pop := by
    rw [Document.closeCurrent_eq _ hcurrent]
  have hsound : (s.document.closeCurrent t.input.line).1.elements.Sound g.dtd := by
    rw [helements]
    exact hs.elements.pop
  have hmarkup : (s.document.closeCurrent t.input.line).1.elements.takesMarkup = true := by
    rw [helements]
    exact hs.elements.takesMarkup_pop
  unfold endRaw
  rw [hdocument]
  exact ⟨.rawClosed hmode rfl rfl, hsound, hmarkup, rawSound_of_none rfl⟩

/-- What follows the name in the end tag of raw text is passed over. -/
theorem proceeds_rawEndTagRest (hs : s.Sound g) (hmode : s.mode = .rawEndTagRest e) :
    Proceeds g s (stepTagRest s (.rawEndTagRest e) endRaw c?) := by
  have hplace : Place.Fits s.document.elements (.raw e) := hs.fits hmode
  have helement : s.mode.element? = none := State.element?_of_mode hmode rfl
  refine proceeds_tagRest (fun _ => ?_) fun t ht => proceeds_endRaw hs hmode ht
  refine proceeds_quiet hs rfl noMisplaced rfl hplace helement.symm
    (rawSound_of_withheld rfl fun hcdata => ?_)
  have hraw := hs.raw e ['<'] (congrArg Mode.withheld? hmode) hcdata
  exact hraw.replace (isToken_of_raw hs.elements hplace) (by decide) (by decide)

end

/-! ## All modes -/

variable {g : Grammar} {s t : State} {actions : List Action}

/-- In every mode a step on the character that is seen keeps the state sound. -/
theorem proceeds_stepOn {c? : Option Char} (hs : s.Sound g) (hsees : s.Sees c?) :
    Proceeds g s (stepOn g s c?) := by
  unfold stepOn
  split <;> rename_i hmode
  case h_1 => exact proceeds_text hs hmode hsees
  case h_2 => exact proceeds_textReturn hs hmode
  case h_3 => exact proceeds_reference hs hmode
  case h_4 => exact proceeds_numericReference hs hmode
  case h_5 => exact proceeds_digits hs hmode
  case h_6 => exact proceeds_entityName hs hmode
  case h_7 => exact proceeds_markup hs hmode
  case h_8 => exact proceeds_endTag hs hmode
  case h_9 => exact proceeds_endTagName hs hmode
  case h_10 => exact proceeds_endTagRest hs hmode
  case h_11 =>
    have hfits := hs.fits hmode
    exact proceeds_declaration hs hfits (State.element?_of_mode hmode rfl) hfits rfl rfl
  case h_12 =>
    have hfits := hs.fits hmode
    exact proceeds_declaration hs hfits (State.element?_of_mode hmode rfl) hfits rfl rfl
  case h_13 => exact proceeds_comment hs hmode
  case h_14 => exact proceeds_skipped hs hmode
  case h_15 => exact proceeds_startTagName hs hmode
  case h_16 => exact proceeds_startTagRest hs hmode
  case h_17 => exact proceeds_attributes hs hmode
  case h_18 => exact proceeds_attributeName hs hmode
  case h_19 => exact proceeds_attributeNameEnd hs hmode
  case h_20 => exact proceeds_valueStart hs hmode
  case h_21 => exact proceeds_value hs hmode
  case h_22 => exact proceeds_valueReturn hs hmode
  case h_23 => exact proceeds_rawMarkup hs hmode hsees
  case h_24 => exact proceeds_rawEndTag hs hmode hsees
  case h_25 => exact proceeds_rawEndTagRest hs hmode

/-- Where the input stands does not matter to a deed. -/
theorem Deed.congr {s' : State} (h : Deed g s actions t) (hmode : s.mode = s'.mode)
    (hdocument : s.document = s'.document) : Deed g s' actions t := by
  cases h with
  | quiet hevents hcauses helements helement =>
    exact .quiet hevents hcauses (hdocument ▸ helements) (hmode ▸ helement)
  | room hname he hattributes ht =>
    rw [hdocument] at ht ⊢
    exact .room (hmode ▸ hname) he hattributes ht
  | opened hattributes hempty ht' ht =>
    rw [hdocument] at ht ⊢
    exact .opened (hmode ▸ hattributes) hempty ht' ht
  | empty hattributes hempty ht' ht =>
    rw [hdocument] at ht ⊢
    exact .empty (hmode ▸ hattributes) hempty ht' ht
  | closed hname hdeclared ht' ht =>
    rw [hdocument] at ht ⊢
    exact .closed (hmode ▸ hname) hdeclared ht' ht
  | rawClosed hraw ht' ht =>
    rw [hdocument] at ht ⊢
    exact .rawClosed (hmode ▸ hraw) ht' ht
  | space hname hspace ht' ht =>
    rw [hdocument] at ht ⊢
    exact .space (hmode ▸ hname) hspace ht' ht
  | unknown hname hdeclared hrule ht' ht =>
    rw [hdocument] at ht ⊢
    exact .unknown (hmode ▸ hname) hdeclared hrule ht' ht

/-- A step of a sound state proceeds. -/
theorem proceeds_step (hs : s.Sound g) : Proceeds g s (step g s) := by
  unfold step
  split
  · exact rfl
  · rename_i c? input hpeek
    have hahead : State.ahead { s with input } = s.ahead := by
      unfold State.ahead
      rw [(Input.peek_ok hpeek).1]
      rfl
    have hs' : State.Sound g { s with input } := by
      refine ⟨hs.elements, hs.mode, fun e withheld he hcdata => ?_⟩
      rw [hahead]
      exact hs.raw e withheld he hcdata
    have hproceeds := proceeds_stepOn hs' (sees_of_peek hpeek)
    rcases hmove : stepOn g { s with input } c? with ⟨actions, progress⟩
    rw [hmove] at hproceeds
    cases progress with
    | running t => exact ⟨hproceeds.1.congr rfl rfl, hproceeds.2⟩
    | stopped outcome =>
      cases outcome with
      | finished =>
        obtain ⟨place, line, hmode, hend, hactions⟩ := hproceeds
        exact ⟨place, line, hmode, hahead ▸ hend, hactions⟩
      | failed failure => exact hproceeds

/-- The state before the first character is sound. -/
theorem sound_start (g : Grammar) (source : Source) : (State.start g source).Sound g :=
  ⟨OpenElements.sound_none, rfl, rawSound_of_none rfl⟩

/-- A step keeps states sound. -/
theorem sound_of_step (hs : s.Sound g) (h : step g s = (actions, .running t)) : t.Sound g := by
  have hproceeds := proceeds_step hs
  rw [h] at hproceeds
  exact hproceeds.2

/-- What a step does from a sound state is a deed. -/
theorem deed_of_step (hs : s.Sound g) (h : step g s = (actions, .running t)) :
    Deed g s actions t := by
  have hproceeds := proceeds_step hs
  rw [h] at hproceeds
  exact hproceeds.1

/-- The reader only gets to sound states. -/
theorem Reaches.sound (h : Reaches g s actions t) (hs : s.Sound g) : t.Sound g :=
  h.invariant sound_of_step hs

end Markup.Reader
