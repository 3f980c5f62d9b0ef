import Markup.Proofs.Reader.Attributes

/-!
# The attributes of a start tag

The attributes of a start tag stand between its name and its `>`, each as a name alone or as a name
and a value, with blanks between them (`AttributesForm`). They are read as they are written, up to
the `>` (`attributes_read_by_form`): the tag has for each name the value of its last attribute, and
each attribute that is not declared is a problem of its own where only declared ones are taken.
-/

namespace Markup

open Reader

/-! ## How attributes are written -/

/-- Characters that are blanks, if there are any. -/
def Blanks (cs : List Char) : Prop :=
  ∀ c ∈ cs, Text.isBlank c = true

/-- How a value is written after the equals sign. -/
inductive ValueForm : List Char → String → Prop
  /-- Between two quotation marks of one kind. -/
  | quoted {mark : Char} {value : String} : mark = '"' ∨ mark = '\'' →
      (∀ c ∈ value.toList, IsQuotable mark c) → ValueForm (mark :: (value.toList ++ [mark])) value
  /-- Without quotation marks. -/
  | bare {value : String} : value ≠ "" →
      (∀ c, value.toList.head? = some c → c ≠ '"' ∧ c ≠ '\'') →
      (∀ c ∈ value.toList, IsBare c) → ValueForm value.toList value

/-- How an attribute is written. Its name is kept in upper case. -/
inductive AttributeForm : List Char → Attribute → Prop
  /-- By its name alone: the value is empty. -/
  | alone {name : String} : isToken name = true →
      AttributeForm name.toList ⟨(Name.fold name).text, ""⟩
  /-- By its name and its value, with blanks around the equals sign. -/
  | valued {name value : String} {before after form : List Char} : isToken name = true →
      Blanks before → Blanks after → ValueForm form value →
      AttributeForm (name.toList ++ (before ++ '=' :: (after ++ form)))
        ⟨(Name.fold name).text, value⟩

/-- How attributes are written one after another: each with blanks after it, and with at least one
if another attribute follows. -/
inductive AttributesForm : List Char → List Attribute → Prop
  /-- None. -/
  | nil : AttributesForm [] []
  /-- One before the others. -/
  | cons {text gap rest : List Char} {a : Attribute} {others : List Attribute} :
      AttributeForm text a → Blanks gap → (others ≠ [] → gap ≠ []) → AttributesForm rest others →
      AttributesForm (text ++ (gap ++ rest)) (a :: others)

/-- Written attributes begin with a letter. -/
theorem AttributesForm.exists_next {text : List Char} {attributes : List Attribute}
    (h : AttributesForm text attributes) (cs : List Char) :
    ∃ c rest, text ++ '>' :: cs = c :: rest ∧ (c = '>' ∨ isNameStart c = true) ∧
      (attributes = [] → c = '>') := by
  cases h with
  | nil => exact ⟨'>', cs, rfl, .inl rfl, fun _ => rfl⟩
  | cons ha _ _ _ =>
    have hname {name : String} (htoken : isToken name = true) (more : List Char) :
        ∃ c rest, name.toList ++ more = c :: rest ∧ (c = '>' ∨ isNameStart c = true) := by
      obtain ⟨c, rest, hchars, hstart, -⟩ := exists_of_isTokenList htoken
      exact ⟨c, rest ++ more, by rw [hchars]; rfl, .inr hstart⟩
    cases ha with
    | alone htoken =>
      obtain ⟨c, rest, hchars, hstart⟩ := hname htoken _
      exact ⟨c, rest, by rw [List.append_assoc]; exact hchars, hstart, nofun⟩
    | valued htoken _ _ _ =>
      obtain ⟨c, rest, hchars, hstart⟩ := hname htoken _
      refine ⟨c, rest, ?_, hstart, nofun⟩
      rw [List.append_assoc, List.append_assoc]
      exact hchars

/-! ## Reading attributes -/

namespace Reader

variable {f : Feed} {g : Grammar} {d : Document} {tag : Tag} {name : Name} {c : Char}
  {cs text gap form : List Char} {value : String} {a : Attribute} {attributes : List Attribute}

/-- A value is read up to its end, before a blank or the end of the tag. -/
theorem traverses_valueForm (h : ValueForm form value) (hc : Text.isBlank c = true ∨ c = '>') :
    Traverses f g ⟨.valueStart tag name, d, form ++ c :: cs⟩ []
      (undeclaredAttribute g tag.element ⟨name.text, value⟩)
      ⟨.attributes { tag with attributes := tag.attributes.insert ⟨name.text, value⟩ }, d,
        c :: cs⟩ := by
  cases h with
  | @quoted mark _ hmark hvalue =>
    have hopen : Traverses f g
        ⟨.valueStart tag name, d, mark :: (value.toList ++ [mark]) ++ c :: cs⟩ [] []
        ⟨.value ⟨tag, name, some mark, ""⟩, d, value.toList ++ mark :: c :: cs⟩ := by
      have happend : mark :: (value.toList ++ [mark]) ++ c :: cs =
          mark :: (value.toList ++ mark :: c :: cs) := by simp
      rw [happend]
      refine .take_quiet (steady_of_unheld rfl) fun input => ?_
      have hblank : Text.isBlank mark = false := by
        rcases hmark with rfl | rfl
        · rfl
        · rfl
      show stepValueStart _ tag name (some mark) = _
      simp only [stepValueStart]
      rw [if_neg (Bool.eq_false_iff.1 hblank), if_pos hmark]
      rfl
    have hchars : Traverses f g
        ⟨.value ⟨tag, name, some mark, ""⟩, d, value.toList ++ mark :: c :: cs⟩ [] []
        ⟨.value ⟨tag, name, some mark, "" ++ value⟩, d, mark :: c :: cs⟩ :=
      traverses_quoted hvalue
    rw [String.empty_append] at hchars
    exact (hopen.after hchars).after traverses_endQuoted
  | bare hne hmark hvalue => exact traverses_bare hvalue hmark hne hc

/-- After the name of an attribute come blanks or a character that does not go on with it. -/
theorem isNameChar_of_head_blanks (hgap : Blanks gap) (hc : gap = [] → isNameChar c = false) :
    ∀ x, (gap ++ c :: cs).head? = some x → isNameChar x = false := by
  intro x hx
  cases gap with
  | nil =>
    cases hx
    exact hc rfl
  | cons b gap =>
    obtain rfl : b = x := Option.some.inj hx
    refine Bool.eq_false_iff.2 fun hname => ?_
    have hblank := hgap b List.mem_cons_self
    rw [not_isBlank_of_isNameChar hname] at hblank
    cases hblank

/-- A name, an equals sign and a value are read with the blanks around the sign. -/
theorem traverses_valued {name : String} {before after : List Char} (htoken : isToken name = true)
    (hbefore : Blanks before) (hafter : Blanks after) (hform : ValueForm form value)
    (hc : Text.isBlank c = true ∨ c = '>') :
    Traverses f g
      ⟨.attributes tag, d, name.toList ++ (before ++ '=' :: (after ++ (form ++ c :: cs)))⟩ []
      (undeclaredAttribute g tag.element ⟨(Name.fold name).text, value⟩)
      ⟨.attributes { tag with
        attributes := tag.attributes.insert ⟨(Name.fold name).text, value⟩ }, d, c :: cs⟩ := by
  have hname : Traverses f g
      ⟨.attributes tag, d, name.toList ++ (before ++ '=' :: (after ++ (form ++ c :: cs)))⟩ [] []
      ⟨.attributeNameEnd tag (.fold name), d, before ++ '=' :: (after ++ (form ++ c :: cs))⟩ :=
    traverses_attributeName htoken (by simp) (isNameChar_of_head_blanks hbefore fun _ => rfl)
  have hblanks : Traverses f g
      ⟨.attributeNameEnd tag (.fold name), d, before ++ '=' :: (after ++ (form ++ c :: cs))⟩
      [] [] ⟨.attributeNameEnd tag (.fold name), d, '=' :: (after ++ (form ++ c :: cs))⟩ :=
    traverses_blanks hbefore rfl fun c input hc => (step_blank input hc _).2.1
  have hequals : Traverses f g
      ⟨.attributeNameEnd tag (.fold name), d, '=' :: (after ++ (form ++ c :: cs))⟩ [] []
      ⟨.valueStart tag (.fold name), d, after ++ (form ++ c :: cs)⟩ :=
    .take_quiet (steady_of_unheld rfl) fun _ => rfl
  have hblanks' : Traverses f g ⟨.valueStart tag (.fold name), d, after ++ (form ++ c :: cs)⟩
      [] [] ⟨.valueStart tag (.fold name), d, form ++ c :: cs⟩ :=
    traverses_blanks hafter rfl fun c input hc => (step_blank input hc _).2.2
  exact (((hname.after hblanks).after hequals).after hblanks').after (traverses_valueForm hform hc)

/-- An attribute and the blanks after it are read up to the next attribute or the end of the tag. -/
theorem traverses_attributeForm (h : AttributeForm text a) (hgap : Blanks gap)
    (hapart : gap = [] → c = '>') (hc : c = '>' ∨ isNameStart c = true) :
    Traverses f g ⟨.attributes tag, d, text ++ (gap ++ c :: cs)⟩ []
      (undeclaredAttribute g tag.element a)
      ⟨.attributes { tag with attributes := tag.attributes.insert a }, d, c :: cs⟩ := by
  cases h with
  | @alone name htoken =>
    have hname : Traverses f g ⟨.attributes tag, d, name.toList ++ (gap ++ c :: cs)⟩ [] []
        ⟨.attributeNameEnd tag (.fold name), d, gap ++ c :: cs⟩ :=
      traverses_attributeName htoken (by simp)
        (isNameChar_of_head_blanks hgap fun hnil => hapart hnil ▸ rfl)
    have hblanks : Traverses f g ⟨.attributeNameEnd tag (.fold name), d, gap ++ c :: cs⟩ [] []
        ⟨.attributeNameEnd tag (.fold name), d, c :: cs⟩ :=
      traverses_blanks hgap rfl fun c input hc => (step_blank input hc _).2.1
    -- what follows is neither a blank nor an equals sign
    have hplain : Text.isBlank c = false ∧ c ≠ '=' := by
      rcases hc with rfl | hstart
      · decide
      · have hchar := isNameChar_of_isNameStart hstart
        exact ⟨not_isBlank_of_isNameChar hchar, ne_of_isNameChar hchar (by decide)⟩
    refine (hname.after hblanks).after
      (.leave (steady_of_unheld rfl) Feed.ends_of_cons fun input => ?_)
    show ∃ actions, stepAttributeNameEnd g _ tag (.fold name) (some c) = _ ∧ _
    simp only [stepAttributeNameEnd]
    rw [if_neg (Bool.eq_false_iff.1 hplain.1), if_neg hplain.2]
    exact exists_endAttribute input _ (.fold name) ""
  | @valued name value before after form htoken hbefore hafter hform =>
    -- the value ends before the first character of the gap or before `c`
    obtain ⟨x, rest, hnext, hx⟩ : ∃ x rest, gap ++ c :: cs = x :: rest ∧
        (Text.isBlank x = true ∨ x = '>') := by
      cases gap with
      | nil => exact ⟨c, cs, rfl, .inr (hapart rfl)⟩
      | cons b gap => exact ⟨b, gap ++ c :: cs, rfl, .inl (hgap b List.mem_cons_self)⟩
    have hvalued : Traverses f g
        ⟨.attributes tag, d, name.toList ++ (before ++ '=' :: (after ++ (form ++ x :: rest)))⟩ []
        (undeclaredAttribute g tag.element ⟨(Name.fold name).text, value⟩)
        ⟨.attributes { tag with
          attributes := tag.attributes.insert ⟨(Name.fold name).text, value⟩ }, d, x :: rest⟩ :=
      traverses_valued htoken hbefore hafter hform hx
    have hassoc : name.toList ++ (before ++ '=' :: (after ++ form)) ++ (gap ++ c :: cs) =
        name.toList ++ (before ++ '=' :: (after ++ (form ++ (gap ++ c :: cs)))) := by simp
    rw [hassoc]
    rw [← hnext] at hvalued
    exact hvalued.before
      (traverses_blanks hgap rfl fun c input hc => (step_blank input hc (.fold name)).1)

/-- Attributes are read one after another, up to the end of the tag. -/
theorem traverses_attributesForm (h : AttributesForm text attributes) (tag : Tag) :
    Traverses f g ⟨.attributes tag, d, text ++ '>' :: cs⟩ []
      (attributes.flatMap (undeclaredAttribute g tag.element))
      ⟨.attributes { tag with attributes := attributes.foldl Registry.insert tag.attributes }, d,
        '>' :: cs⟩ := by
  induction h generalizing tag with
  | nil => exact .refl _
  | @cons text gap rest a others ha hgap hapart hrest ih =>
    obtain ⟨c, more, hnext, hc, hlast⟩ := hrest.exists_next cs
    have hnone (hnil : gap = []) : others = [] :=
      Classical.byContradiction fun hne => hapart hne hnil
    have hfirst : Traverses f g ⟨.attributes tag, d, text ++ (gap ++ c :: more)⟩ []
        (undeclaredAttribute g tag.element a)
        ⟨.attributes { tag with attributes := tag.attributes.insert a }, d, c :: more⟩ :=
      traverses_attributeForm ha hgap (fun hnil => hlast (hnone hnil)) hc
    have hothers := ih { tag with attributes := tag.attributes.insert a }
    rw [hnext] at hothers
    rw [List.append_assoc, List.append_assoc, hnext, List.flatMap_cons]
    exact hfirst.trans hothers

/-! ## What the tag has -/

/-- Of the items inserted with a key the last one is found. -/
theorem find?_foldl_insert (attributes : List Attribute) (r : Attributes) (key : String) :
    (attributes.foldl Registry.insert r).find? key =
      (attributes.reverse.find? (·.name == key)).or (r.find? key) := by
  induction attributes generalizing r with
  | nil => rfl
  | cons a attributes ih =>
    rw [List.foldl_cons, ih, List.reverse_cons, List.find?_append, Option.or_assoc,
      Registry.find?_insert]
    congr 1
    show (if a.name = key then some a else r.find? key) = _
    by_cases hkey : a.name = key
    · simp [hkey]
    · simp [hkey]

/-- Undeclared attributes are problems where only declared ones are taken, in their order. -/
theorem flatMap_undeclaredAttribute (e : Element) (attributes : List Attribute) :
    attributes.flatMap (undeclaredAttribute g e) =
      if g.dialect.attributes = .declared then
        (attributes.filter fun a => !e.hasAttribute (.fold a.name)).map fun a =>
          .undefinedAttribute (.fold a.name) e.name
      else [] := by
  induction attributes with
  | nil => simp
  | cons a attributes ih =>
    rw [List.flatMap_cons, ih]
    unfold undeclaredAttribute
    by_cases hpolicy : g.dialect.attributes = .declared
    · cases hattribute : e.hasAttribute (.fold a.name) with
      | false => simp [hpolicy, hattribute]
      | true => simp [hpolicy, hattribute]
    · simp [hpolicy]

end Reader

/-- The attributes of a start tag are read as they are written, exactly up to the `>`, which ends
the tag. The tag has for each name the last attribute of that name. Where only declared attributes
are taken, each occurrence of an undeclared one is a problem, in the order of the occurrences, and
otherwise there are no problems. -/
theorem attributes_read_by_form {lead text : List Char} {attributes : List Attribute}
    (hlead : Blanks lead) (hform : AttributesForm text attributes) {g : Grammar} {e : Element}
    {s : State} {rest : Source} (hmode : s.mode = .attributes ⟨e, .empty⟩)
    (hup : s.input.upcoming = (lead ++ text ++ ['>']).map .ok ++ rest) :
    ∃ actions t values input, Reaches g s actions t ∧ actionEvents actions = [] ∧
      actionCauses actions = (if g.dialect.attributes = .declared then
        (attributes.filter fun a => !e.hasAttribute (.fold a.name)).map fun a =>
          .undefinedAttribute (.fold a.name) e.name
      else []) ∧
      step g t = endStartTag ⟨input, .attributes ⟨e, values⟩, s.document⟩ ⟨e, values⟩ ∧
      input.upcoming = rest ∧
      ∀ key, values.find? key = attributes.reverse.find? (·.name == key) := by
  have hblanks : Traverses (.before rest) g
      ⟨.attributes ⟨e, .empty⟩, s.document, lead ++ (text ++ ['>'])⟩ [] []
      ⟨.attributes ⟨e, .empty⟩, s.document, text ++ ['>']⟩ :=
    traverses_blanks hlead rfl fun c input hc => (step_blank input hc (.fold "")).1
  have hforms : Traverses (.before rest) g ⟨.attributes ⟨e, .empty⟩, s.document, text ++ ['>']⟩ []
      (attributes.flatMap (undeclaredAttribute g e))
      ⟨.attributes ⟨e, attributes.foldl Registry.insert .empty⟩, s.document, ['>']⟩ :=
    traverses_attributesForm hform ⟨e, .empty⟩
  obtain ⟨actions, t, hreach, ht, hevents, hcauses⟩ := hblanks.after hforms s ⟨hmode, rfl, by
    rw [← List.append_assoc]
    exact hup⟩
  -- the `>` is still to come, and the next step takes it
  obtain ⟨j, hpeek, -, hrest⟩ : ∃ j, (t.input.hold t.mode.isHeld).peek = (.ok (some '>'), j) ∧
      (Feed.before rest).Holds ['>'] j ∧ (Feed.before rest).Holds [] j.consume :=
    (Feed.before rest).look (fun _ => rfl) ht.input
  refine ⟨actions, t, attributes.foldl Registry.insert .empty, j.consume, hreach, hevents, ?_, ?_,
    hrest, fun key => ?_⟩
  · rw [hcauses, flatMap_undeclaredAttribute]
  · rw [step_of_peek hpeek, ht.mode, ht.document]
    rfl
  · rw [find?_foldl_insert]
    exact Option.or_none

/-- An element with one declared attribute. -/
def link : Element :=
  (Element.ofName "LINK" .pcdata).withAttributes ["A"]

/-- Attributes in all forms, with a name twice and with one that is not declared. -/
theorem attributes_read_by_form_link :
    AttributesForm "A = \"x>\" b=c/d a".toList [⟨"A", "x>"⟩, ⟨"B", "c/d"⟩, ⟨"A", ""⟩] ∧
      ∃ actions t values input,
        Reaches ⟨.ofRoot "D", .strict⟩ ⟨.ofSource (.ofText " A = \"x>\" b=c/d a>.") 1,
          .attributes ⟨link, .empty⟩, .start⟩ actions t ∧
        actionEvents actions = [] ∧
        actionCauses actions = [.undefinedAttribute (.fold "B") link.name] ∧
        step ⟨.ofRoot "D", .strict⟩ t =
          endStartTag ⟨input, .attributes ⟨link, values⟩, .start⟩ ⟨link, values⟩ ∧
        input.upcoming = .ofText "." ∧ values.find? "A" = some ⟨"A", ""⟩ ∧
        values.find? "B" = some ⟨"B", "c/d"⟩ := by
  have hblank : Blanks [' '] := by
    intro c hc
    rw [List.mem_singleton.1 hc]
    rfl
  have hquoted : ValueForm ('"' :: ("x>".toList ++ ['"'])) "x>" := by
    refine .quoted (.inl rfl) fun c hc => ?_
    obtain rfl | rfl : c = 'x' ∨ c = '>' := by simpa using hc
    · exact ⟨by decide, by decide, by decide, by decide, by decide⟩
    · exact ⟨by decide, by decide, by decide, by decide, by decide⟩
  have hbare : ValueForm "c/d".toList "c/d" := by
    refine .bare (by decide) (by simp) fun c hc => ?_
    obtain rfl | rfl | rfl : c = 'c' ∨ c = '/' ∨ c = 'd' := by simpa using hc
    · exact ⟨by decide, by decide, by decide, by decide⟩
    · exact ⟨by decide, by decide, by decide, by decide⟩
    · exact ⟨by decide, by decide, by decide, by decide⟩
  have hnone : Blanks [] := by
    intro c hc
    cases hc
  have hupper : (Name.fold "A").text = "A" ∧ (Name.fold "b").text = "B" ∧
      (Name.fold "a").text = "A" := by decide +kernel
  have hfirst : AttributeForm
      ("A".toList ++ ([' '] ++ '=' :: ([' '] ++ '"' :: ("x>".toList ++ ['"']))))
      ⟨(Name.fold "A").text, "x>"⟩ := .valued (by decide) hblank hblank hquoted
  have hsecond : AttributeForm ("b".toList ++ ([] ++ '=' :: ([] ++ "c/d".toList)))
      ⟨(Name.fold "b").text, "c/d"⟩ := .valued (by decide) hnone hnone hbare
  have hthird : AttributeForm "a".toList ⟨(Name.fold "a").text, ""⟩ := .alone (by decide)
  rw [hupper.1] at hfirst
  rw [hupper.2.1] at hsecond
  rw [hupper.2.2] at hthird
  have hform : AttributesForm "A = \"x>\" b=c/d a".toList
      [⟨"A", "x>"⟩, ⟨"B", "c/d"⟩, ⟨"A", ""⟩] :=
    .cons hfirst hblank (fun _ => List.cons_ne_nil _ _)
      (.cons hsecond hblank (fun _ => List.cons_ne_nil _ _)
        (.cons hthird hnone (fun hnil => absurd rfl hnil) .nil))
  have hup : (Input.ofSource (.ofText " A = \"x>\" b=c/d a>.") 1).upcoming =
      ([' '] ++ "A = \"x>\" b=c/d a".toList ++ ['>']).map .ok ++ Source.ofText "." := by
    decide +kernel
  obtain ⟨actions, t, values, input, hreach, hevents, hcauses, hstep, hrest, hvalues⟩ :=
    attributes_read_by_form hblank hform (g := ⟨.ofRoot "D", .strict⟩) (e := link)
      (s := ⟨.ofSource (.ofText " A = \"x>\" b=c/d a>.") 1, .attributes ⟨link, .empty⟩, .start⟩)
      rfl hup
  refine ⟨hform, actions, t, values, input, hreach, hevents, ?_, hstep, hrest, ?_, ?_⟩
  · rw [hcauses]
    decide +kernel
  · rw [hvalues]
    decide +kernel
  · rw [hvalues]
    decide +kernel

end Markup
