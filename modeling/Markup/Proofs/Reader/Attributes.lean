import Markup.Proofs.Events.Regular
import Markup.Proofs.Reader.NumericReferences
import Markup.Proofs.Reader.Token

/-!
# Reading attributes

The parts of a start tag after the name of its element, one lemma for each: the name of an attribute
(`traverses_attributeName`), the blanks around it (`traverses_blanks`), and its value with quotation
marks (`traverses_quoted`, `traverses_endQuoted`) or without them (`traverses_bare`). At the end of
its value the attribute is added to the tag (`exists_endAttribute`), with a problem if it is not
declared. In a value a reference to an entity adds what the entity stands for there
(`traverses_entityInValue`).
-/

namespace Markup.Reader

variable {f : Feed} {g : Grammar} {d : Document} {cs : List Char} {mode : Mode} {tag : Tag}
  {name : Name} {v : Value} {c : Char}

/-! ## Names and blanks -/

/-- Blanks are passed over in a mode that every blank leaves as it is. -/
theorem traverses_blanks {blanks : List Char} (hblanks : ∀ c ∈ blanks, Text.isBlank c = true)
    (hheld : mode.isHeld = false)
    (hmode : ∀ c input, Text.isBlank c = true →
      stepOn g ⟨input, mode, d⟩ (some c) = ([], .running ⟨input.consume, mode, d⟩)) :
    Traverses f g ⟨mode, d, blanks ++ cs⟩ [] [] ⟨mode, d, cs⟩ :=
  Traverses.collect (fun _ cs => ⟨mode, d, cs⟩) _
    (fun _ c _ hc => .take_quiet (steady_of_unheld hheld) fun input => hmode c input hc)
    hblanks [] cs

/-- Between attributes, after a name and before a value blanks are passed over. -/
theorem step_blank (input : Input) (hc : Text.isBlank c = true) (name : Name) :
    stepOn g ⟨input, .attributes tag, d⟩ (some c) =
        ([], .running ⟨input.consume, .attributes tag, d⟩) ∧
      stepOn g ⟨input, .attributeNameEnd tag name, d⟩ (some c) =
        ([], .running ⟨input.consume, .attributeNameEnd tag name, d⟩) ∧
      stepOn g ⟨input, .valueStart tag name, d⟩ (some c) =
        ([], .running ⟨input.consume, .valueStart tag name, d⟩) := by
  simp only [stepOn, stepAttributes, stepAttributeNameEnd, stepValueStart]
  rw [if_pos hc, if_pos hc, if_pos hc]
  exact ⟨rfl, rfl, rfl⟩

/-- The name of an attribute is read up to the character after it. -/
theorem traverses_attributeName {name : String} (htoken : isToken name = true)
    (hend : cs = [] → f.Ends) (hcs : ∀ c, cs.head? = some c → isNameChar c = false) :
    Traverses f g ⟨.attributes tag, d, name.toList ++ cs⟩ [] []
      ⟨.attributeNameEnd tag (.fold name), d, cs⟩ := by
  have hname : Traverses f g ⟨.attributes tag, d, name.toList ++ cs⟩ [] []
      ⟨.attributeName tag name, d, cs⟩ := by
    refine .token (.attributeName tag) (steady_of_unheld rfl) (fun _ => steady_of_unheld rfl)
      (fun c input hc => ⟨[], ?_, rfl, rfl⟩) (fun name c input hc => ?_) htoken cs
    · have hchar := isNameChar_of_isNameStart hc
      show stepAttributes _ tag (some c) = _
      simp only [stepAttributes]
      rw [if_neg (Bool.not_eq_true _ ▸ not_isBlank_of_isNameChar hchar),
        if_neg (ne_of_isNameChar hchar (by decide)), if_neg (ne_of_isNameChar hchar (by decide)),
        if_neg (ne_of_isNameChar hchar (by decide)), if_pos hc]
      rfl
    · show stepAttributeName _ tag name (some c) = _
      simp only [stepAttributeName]
      rw [if_pos hc]
      rfl
  refine hname.after (.leave_quiet (steady_of_unheld rfl) hend fun input => ?_)
  show stepAttributeName _ tag name cs.head? = _
  cases hnext : cs.head? with
  | none => rfl
  | some c =>
    simp only [stepAttributeName]
    rw [if_neg (Bool.eq_false_iff.1 (hcs c hnext))]
    rfl

/-! ## Values -/

/-- The end of an attribute adds it to the tag. -/
theorem exists_endAttribute (input : Input) (mode : Mode) (name : Name) (value : String) :
    ∃ actions,
      endAttribute g ⟨input, mode, d⟩ tag name value = (actions, .running ⟨input,
          .attributes { tag with attributes := tag.attributes.insert ⟨name.text, value⟩ }, d⟩) ∧
        actionEvents actions = [] ∧
        actionCauses actions = undeclaredAttribute g tag.element ⟨name.text, value⟩ := by
  unfold endAttribute undeclaredAttribute
  rw [Name.fold_text]
  split
  · exact ⟨_, rfl, rfl, rfl⟩
  · exact ⟨_, rfl, rfl, rfl⟩

/-- A character that stands for itself in a value between quotation marks. -/
structure IsQuotable (mark c : Char) : Prop where
  /-- It does not end the value. -/
  ne_mark : c ≠ mark
  /-- It begins no reference. -/
  ne_ampersand : c ≠ '&'
  /-- It is no carriage return. -/
  ne_return : c ≠ '\r'
  /-- It is no line feed. -/
  ne_feed : c ≠ '\n'
  /-- It is no tab. -/
  ne_tab : c ≠ '\t'

/-- Characters between quotation marks that stand for themselves are added to the value. -/
theorem traverses_quoted {mark : Char} {text more : String}
    (hmore : ∀ c ∈ more.toList, IsQuotable mark c) :
    Traverses f g ⟨.value ⟨tag, name, some mark, text⟩, d, more.toList ++ cs⟩ [] []
      ⟨.value ⟨tag, name, some mark, text ++ more⟩, d, cs⟩ := by
  have hall : Traverses f g ⟨.value ⟨tag, name, some mark, text⟩, d, more.toList ++ cs⟩ [] []
      ⟨.value ⟨tag, name, some mark, text ++ String.ofList more.toList⟩, d, cs⟩ := by
    refine Traverses.collect_text (fun text cs => ⟨.value ⟨tag, name, some mark, text⟩, d, cs⟩) _
      (fun text c cs hc => .take_quiet (steady_of_unheld rfl) fun input => ?_) hmore text cs
    show stepQuotedValue g _ ⟨tag, name, some mark, text⟩ mark (some c) = _
    simp only [stepQuotedValue]
    rw [if_neg hc.ne_mark, if_neg hc.ne_ampersand, if_neg hc.ne_return,
      if_neg (not_or.2 ⟨hc.ne_feed, hc.ne_tab⟩)]
    rfl
  rwa [String.ofList_toList] at hall

/-- The quotation mark at the end of a value ends the attribute. -/
theorem traverses_endQuoted {mark : Char} {text : String} :
    Traverses f g ⟨.value ⟨tag, name, some mark, text⟩, d, mark :: cs⟩ []
      (undeclaredAttribute g tag.element ⟨name.text, text⟩)
      ⟨.attributes { tag with attributes := tag.attributes.insert ⟨name.text, text⟩ }, d, cs⟩ := by
  refine .take (steady_of_unheld rfl) fun input => ?_
  show ∃ actions, stepQuotedValue g _ ⟨tag, name, some mark, text⟩ mark (some mark) = _ ∧ _
  simp only [stepQuotedValue]
  rw [if_pos trivial]
  exact exists_endAttribute input.consume _ name text

/-- A character that stands for itself in a value without quotation marks. -/
structure IsBare (c : Char) : Prop where
  /-- It is no blank. -/
  not_blank : Text.isBlank c = false
  /-- It begins no tag. -/
  ne_start : c ≠ '<'
  /-- It does not end the tag. -/
  ne_end : c ≠ '>'
  /-- It begins no reference. -/
  ne_ampersand : c ≠ '&'

/-- A value without quotation marks is read up to a blank or the end of the tag. -/
theorem traverses_bare {value : String} (hvalue : ∀ c ∈ value.toList, IsBare c)
    (hmark : ∀ c, value.toList.head? = some c → c ≠ '"' ∧ c ≠ '\'') (hne : value ≠ "")
    (hc : Text.isBlank c = true ∨ c = '>') :
    Traverses f g ⟨.valueStart tag name, d, value.toList ++ c :: cs⟩ []
      (undeclaredAttribute g tag.element ⟨name.text, value⟩)
      ⟨.attributes { tag with attributes := tag.attributes.insert ⟨name.text, value⟩ }, d,
        c :: cs⟩ := by
  have hstart : Traverses f g ⟨.valueStart tag name, d, value.toList ++ c :: cs⟩ [] []
      ⟨.value ⟨tag, name, none, ""⟩, d, value.toList ++ c :: cs⟩ := by
    refine .leave_quiet (steady_of_unheld rfl) (by simp) fun input => ?_
    obtain ⟨x, rest, hchars⟩ :=
      List.exists_cons_of_ne_nil fun hnil => hne (String.toList_eq_nil_iff.1 hnil)
    rw [hchars] at hvalue hmark ⊢
    show stepValueStart _ tag name (some x) = _
    simp only [stepValueStart]
    rw [if_neg (Bool.eq_false_iff.1 (hvalue x List.mem_cons_self).not_blank),
      if_neg (not_or.2 (hmark x rfl))]
    rfl
  have hall : Traverses f g ⟨.value ⟨tag, name, none, ""⟩, d, value.toList ++ c :: cs⟩ [] []
      ⟨.value ⟨tag, name, none, "" ++ String.ofList value.toList⟩, d, c :: cs⟩ := by
    refine Traverses.collect_text (fun text cs => ⟨.value ⟨tag, name, none, text⟩, d, cs⟩) _
      (fun text x cs hx => .take_quiet (steady_of_unheld rfl) fun input => ?_) hvalue "" (c :: cs)
    show stepBareValue g _ ⟨tag, name, none, text⟩ (some x) = _
    simp only [stepBareValue]
    rw [if_neg (by simp [hx.not_blank, hx.ne_start, hx.ne_end]), if_neg hx.ne_ampersand]
    rfl
  rw [String.empty_append, String.ofList_toList] at hall
  refine (hstart.after hall).after (.leave (steady_of_unheld rfl) Feed.ends_of_cons fun input => ?_)
  show ∃ actions, stepBareValue g _ ⟨tag, name, none, value⟩ (some c) = _ ∧ _
  simp only [stepBareValue]
  rw [if_pos (hc.imp_right .inl)]
  exact exists_endAttribute input _ name value

/-! ## References to entities -/

/-- In a value a reference to an entity adds what it stands for there. -/
theorem traverses_entityInValue {name : String} (htoken : isToken name = true)
    (hmark : v.mark ≠ some '&') :
    Traverses f g ⟨.value v, d, '&' :: (name.toList ++ ';' :: cs)⟩ [] []
      ⟨.value { v with text := v.text ++ entityInValue g name true }, d, cs⟩ := by
  have hname : Traverses f g ⟨.value v, d, '&' :: (name.toList ++ ';' :: cs)⟩ [] []
      ⟨.entityName (.value v) name, d, ';' :: cs⟩ :=
    traverses_entityName (.value v) hmark (steady_of_unheld rfl) htoken
  exact hname.after (.take_quiet (steady_of_unheld rfl) fun _ => rfl)

end Markup.Reader
