import Markup.Proofs.Events.Regular
import Markup.Proofs.Rereading.Characters

/-!
# Reading written start tags

A start tag that the writer writes begins its element with the same attributes: they are read one
after another (`reads_attribute`), and inserting them in the order of their names gives all of them
back (`Registry.foldl_insert_items`).
-/

namespace Markup

namespace Registry

variable {α : Type} [Keyed α]

/-- An item above all others goes to the end. -/
theorem insertInto_of_forall_lt {x : α} {ys : List α} (h : ∀ y ∈ ys, Keyed.key y < Keyed.key x) :
    insertInto x ys = ys ++ [x] := by
  induction ys with
  | nil => rfl
  | cons y ys ih =>
    have hy := h y List.mem_cons_self
    have hnot : ¬Keyed.key x < Keyed.key y := fun hlt =>
      String.lt_irrefl _ (String.lt_trans hy hlt)
    rw [insertInto, if_neg hnot, if_pos hy, ih fun z hz => h z (List.mem_cons_of_mem _ hz)]
    rfl

/-- The items of a registry, inserted in their order, make up the registry. -/
theorem foldl_insert_items (r : Registry α) : r.items.foldl insert empty = r := by
  have hall (xs ys : List α) (s : Registry α) (hs : s.items = xs)
      (hsorted : (xs ++ ys).Pairwise (Keyed.key · < Keyed.key ·)) :
      (ys.foldl insert s).items = xs ++ ys := by
    induction ys generalizing xs s with
    | nil => rw [List.append_nil, List.foldl_nil, hs]
    | cons y ys ih =>
      have hbelow : ∀ x ∈ xs, Keyed.key x < Keyed.key y := fun x hx =>
        (List.pairwise_append.1 hsorted).2.2 x hx y List.mem_cons_self
      have hinsert : (s.insert y).items = xs ++ [y] := by
        show insertInto y s.items = _
        rw [hs, insertInto_of_forall_lt hbelow]
      rw [List.foldl_cons, ih (xs ++ [y]) (s.insert y) hinsert (by simpa using hsorted)]
      simp
  exact Registry.ext (hall [] r.items empty rfl r.sorted)

end Registry

namespace Reader

variable {g : Grammar} {d : Document} {cs : List Char} {e : Element} {tag : Tag}

/-! ## Attributes -/

/-- The name of an attribute is read up to the `=`. -/
theorem reads_attributeName {name : String} (htoken : isToken name = true) :
    Reads g ⟨.attributes tag, d, name.toList ++ '=' :: cs⟩ [] []
      ⟨.attributeNameEnd tag (.fold name), d, '=' :: cs⟩ :=
  reads_iff_traverses.2 (traverses_attributeName htoken Feed.ends_of_cons fun c hc => by
    rw [← Option.some.inj hc]
    decide)

/-- A written attribute is read as the attribute. -/
theorem reads_attribute {a : Attribute} (ha : a.Spelled) :
    Reads g ⟨.attributes tag, d, (Writer.attributeMarkup a).toList ++ cs⟩ []
      (undeclaredAttribute g tag.element a)
      ⟨.attributes { tag with attributes := tag.attributes.insert a }, d, cs⟩ := by
  have hblank : Reads g
      ⟨.attributes tag, d, ' ' :: (a.name.toList ++
        '=' :: '"' :: ((Writer.escape Writer.escapeInValue a.value).toList ++ '"' :: cs))⟩ [] []
      ⟨.attributes tag, d, a.name.toList ++
        '=' :: '"' :: ((Writer.escape Writer.escapeInValue a.value).toList ++ '"' :: cs)⟩ :=
    Reads.take_quiet fun _ => rfl
  have hequals : Reads g
      ⟨.attributeNameEnd tag (.fold a.name), d,
        '=' :: '"' :: ((Writer.escape Writer.escapeInValue a.value).toList ++ '"' :: cs)⟩ [] []
      ⟨.valueStart tag (.fold a.name), d,
        '"' :: ((Writer.escape Writer.escapeInValue a.value).toList ++ '"' :: cs)⟩ :=
    Reads.take_quiet fun _ => rfl
  have hmark : Reads g
      ⟨.valueStart tag (.fold a.name), d,
        '"' :: ((Writer.escape Writer.escapeInValue a.value).toList ++ '"' :: cs)⟩ [] []
      ⟨.value ⟨tag, .fold a.name, some '"', ""⟩, d,
        (Writer.escape Writer.escapeInValue a.value).toList ++ '"' :: cs⟩ :=
    Reads.take_quiet fun _ => rfl
  have hvalue : Reads g
      ⟨.value ⟨tag, .fold a.name, some '"', ""⟩, d,
        (Writer.escape Writer.escapeInValue a.value).toList ++ '"' :: cs⟩ [] []
      ⟨.value ⟨tag, .fold a.name, some '"', "" ++ a.value⟩, d, '"' :: cs⟩ :=
    reads_escape (fun text cs => ⟨.value ⟨tag, .fold a.name, some '"', text⟩, d, cs⟩)
      (fun text c cs => reads_escapeInValue rfl) "" a.value _
  have hend : Reads g ⟨.value ⟨tag, .fold a.name, some '"', a.value⟩, d, '"' :: cs⟩ []
      (undeclaredAttribute g tag.element a)
      ⟨.attributes { tag with attributes := tag.attributes.insert a }, d, cs⟩ := by
    have hkept : (⟨(Name.fold a.name).text, a.value⟩ : Attribute) = a := by
      rw [Name.text_fold, ha.upper]
    have hquoted : Traverses (.before []) g
        ⟨.value ⟨tag, .fold a.name, some '"', a.value⟩, d, '"' :: cs⟩ [] _ _ := traverses_endQuoted
    rw [hkept] at hquoted
    exact reads_iff_traverses.2 hquoted
  have hchars : (Writer.attributeMarkup a).toList ++ cs = ' ' :: (a.name.toList ++
      '=' :: '"' :: ((Writer.escape Writer.escapeInValue a.value).toList ++ '"' :: cs)) := by
    simp [Writer.attributeMarkup]
  rw [hchars]
  rw [String.empty_append] at hvalue
  exact ((((hblank.after (reads_attributeName ha.token)).after hequals).after hmark).after
    hvalue).after hend

/-- Written attributes are read one after another. -/
theorem reads_attributes (tag : Tag) {items : List Attribute} (hitems : ∀ a ∈ items, a.Spelled) :
    Reads g ⟨.attributes tag, d, (String.join (items.map Writer.attributeMarkup)).toList ++ cs⟩ []
      (items.flatMap (undeclaredAttribute g tag.element))
      ⟨.attributes { tag with attributes := items.foldl Registry.insert tag.attributes }, d,
        cs⟩ := by
  induction items generalizing tag with
  | nil => exact .refl _
  | cons a items ih =>
    have hrest := ih { tag with attributes := tag.attributes.insert a }
      fun b hb => hitems b (List.mem_cons_of_mem _ hb)
    have hjoin : (String.join ((a :: items).map Writer.attributeMarkup)).toList ++ cs =
        (Writer.attributeMarkup a).toList ++
          ((String.join (items.map Writer.attributeMarkup)).toList ++ cs) := by
      simp [String.toList_join]
    rw [hjoin, List.flatMap_cons]
    exact (reads_attribute (hitems a List.mem_cons_self)).trans hrest

/-! ## Start tags -/

/-- The place of the text that comes next. -/
def placeOf (s : OpenElements) : Place :=
  match s.current? with
  | some e => if e.content.isRaw then .raw e else .content
  | none => .content

/-- A document with characters to come, between two tags. -/
def between (d : Document) (cs : List Char) : View :=
  ⟨.text (placeOf d.elements), d, cs⟩

/-- Where tags are recognised, text is no raw text. -/
theorem placeOf_of_takesMarkup {s : OpenElements} (h : s.takesMarkup = true) :
    placeOf s = .content := by
  unfold placeOf
  split
  · rename_i e he
    have hraw := Element.not_isRaw_of_takesMarkup (OpenElements.takesMarkup_of_current h he)
    rw [hraw]
    rfl
  · rfl

/-- The text after a start tag stands inside its element. -/
theorem placeOf_push (s : OpenElements) (e : Element) :
    placeOf (s.push e) = if e.content.isRaw then .raw e else .content := rfl

/-- The name of a start tag is read up to the character after it. -/
theorem reads_startTagName {name : String} (c : Char) (htoken : isToken name = true) :
    Reads g ⟨.text .content, d, '<' :: (name.toList ++ c :: cs)⟩ [] []
      ⟨.startTagName name, d, c :: cs⟩ :=
  reads_iff_traverses.2 (traverses_startTagName htoken)

/-- Where there is room for an element, making room does nothing but report its place. -/
theorem makeRoom_of_hasRoom (line : Nat) (h : d.elements.HasRoom g.dtd e) :
    (d.makeRoom g.dtd line e).1 = d ∧ actionEvents (d.makeRoom g.dtd line e).2 = [] ∧
      actionCauses (d.makeRoom g.dtd line e).2 = misplacement g d.elements e := by
  unfold Document.makeRoom misplacement
  by_cases hadmits : d.elements.admits g.dtd e = true
  · rw [if_pos hadmits, if_pos hadmits]
    exact ⟨rfl, rfl, rfl⟩
  · have hnone : d.elements.closingsFor? g.dtd e = none := h.resolve_left hadmits
    rw [if_neg hadmits, if_neg hadmits, hnone]
    exact ⟨rfl, rfl, rfl⟩

/-- The end of the name of a start tag where there is room for the element. -/
theorem reads_room {c : Char} (he : g.dtd.Spells e) (hroom : d.elements.HasRoom g.dtd e)
    (hc : isNameChar c = false) :
    Reads g ⟨.startTagName e.name.text, d, c :: cs⟩ [] (misplacement g d.elements e)
      ⟨.attributes ⟨e, .empty⟩, d, c :: cs⟩ := by
  apply Reads.leave
  intro input
  obtain ⟨hdocument, hevents, hcauses⟩ := makeRoom_of_hasRoom (g := g) input.line hroom
  refine ⟨_, ?_, hevents, hcauses⟩
  show stepStartTagName g _ e.name.text (some c) = _
  simp only [stepStartTagName]
  rw [if_neg (Bool.eq_false_iff.1 hc), Name.fold_text]
  simp only [endStartTagName, he.declared, State.change, hdocument]

/-- Written start tags are read up to the `>`. -/
theorem reads_startTagUpToEnd {attributes : Attributes} (hbegins : d.Begins g e attributes) :
    Reads g
      ⟨.text .content, d, '<' :: (e.name.text.toList ++
        ((String.join (attributes.items.map Writer.attributeMarkup)).toList ++ '>' :: cs))⟩ []
      (misplacement g d.elements e ++ undeclaredAttributes g e attributes)
      ⟨.attributes ⟨e, attributes⟩, d, '>' :: cs⟩ := by
  have hnext : ∃ c rest, (String.join (attributes.items.map Writer.attributeMarkup)).toList ++
      '>' :: cs = c :: rest ∧ isNameChar c = false := by
    cases attributes.items with
    | nil => exact ⟨'>', cs, rfl, by decide⟩
    | cons a items =>
      refine ⟨' ', (a.name ++ "=\"" ++ Writer.escape Writer.escapeInValue a.value ++ "\"" ++
        String.join (items.map Writer.attributeMarkup)).toList ++ '>' :: cs, ?_, by decide⟩
      simp [Writer.attributeMarkup, String.toList_join]
  have hattributes : Reads g
      ⟨.attributes ⟨e, .empty⟩, d,
        (String.join (attributes.items.map Writer.attributeMarkup)).toList ++ '>' :: cs⟩ []
      (undeclaredAttributes g e attributes)
      ⟨.attributes ⟨e, attributes.items.foldl Registry.insert .empty⟩, d, '>' :: cs⟩ :=
    reads_attributes ⟨e, .empty⟩ hbegins.attributes
  rw [show attributes.items.foldl Registry.insert .empty = attributes from
    attributes.foldl_insert_items] at hattributes
  obtain ⟨c, rest, hrest, hc⟩ := hnext
  rw [hrest] at hattributes ⊢
  exact ((reads_startTagName c hbegins.spelt.token).after
    (reads_room hbegins.spelt hbegins.room hc)).trans hattributes

/-- The markup of a start tag. -/
theorem toList_startTag (e : Element) (attributes : Attributes) :
    ("<" ++ e.name.text ++ String.join (attributes.items.map Writer.attributeMarkup) ++
        ">").toList ++ cs =
      '<' :: (e.name.text.toList ++
        ((String.join (attributes.items.map Writer.attributeMarkup)).toList ++ '>' :: cs)) := by
  simp

/-- A written start tag begins its element. -/
theorem reads_startTag {attributes : Attributes} (hbegins : d.Begins g e attributes)
    (hempty : e.content ≠ .empty) :
    Reads g
      (between d (("<" ++ e.name.text ++
        String.join (attributes.items.map Writer.attributeMarkup) ++ ">").toList ++ cs))
      (textEvents d.pending ++ [.startTag e attributes])
      (misplacement g d.elements e ++ undeclaredAttributes g e attributes)
      (between ⟨d.elements.push e, ""⟩ cs) := by
  have hend : Reads g ⟨.attributes ⟨e, attributes⟩, d, '>' :: cs⟩
      (textEvents d.pending ++ [.startTag e attributes]) []
      (between ⟨d.elements.push e, ""⟩ cs) := by
    apply Reads.take
    intro input
    obtain ⟨hevents, hcauses⟩ := d.openElement_of_deliverable input.consume.line e attributes
      hbegins.text
    refine ⟨(d.openElement input.consume.line e attributes).2, ?_, hevents, hcauses⟩
    show endStartTag _ ⟨e, attributes⟩ = _
    unfold endStartTag
    simp only [placeOf_push]
    cases hcontent : e.content <;> first
      | exact absurd hcontent hempty
      | rfl
  rw [between, placeOf_of_takesMarkup hbegins.markup, toList_startTag]
  have hall := (reads_startTagUpToEnd hbegins).trans hend
  rwa [List.nil_append, List.append_nil] at hall

/-- A written start tag of an empty element begins and ends it. -/
theorem reads_emptyElement {attributes : Attributes} (hd : d.elements.Sound g.dtd)
    (hbegins : d.Begins g e attributes) (hempty : e.content = .empty) :
    Reads g
      (between d (("<" ++ e.name.text ++
        String.join (attributes.items.map Writer.attributeMarkup) ++ ">").toList ++ cs))
      (textEvents d.pending ++ [.startTag e attributes, .endTag e])
      (misplacement g d.elements e ++ undeclaredAttributes g e attributes)
      (between d.settled cs) := by
  have hend : Reads g ⟨.attributes ⟨e, attributes⟩, d, '>' :: cs⟩
      (textEvents d.pending ++ [.startTag e attributes, .endTag e]) [] (between d.settled cs) := by
    have hpop : (d.elements.push e).pop = d.elements := hd.pop_push e
    apply Reads.take
    intro input
    have hclosed := Document.closeCurrent_eq (d := ⟨d.elements.push e, ""⟩) (e := e)
      input.consume.line rfl
    obtain ⟨hopen, hopenCauses⟩ := d.openElement_of_deliverable input.consume.line e attributes
      hbegins.text
    obtain ⟨hclose, hcloseCauses⟩ := Document.closeCurrent_of_deliverable
      (d := ⟨d.elements.push e, ""⟩) (e := e) input.consume.line rfl rfl
      (Document.deliverable_of_empty rfl _)
    refine ⟨(d.openElement input.consume.line e attributes).2 ++
      (Document.closeCurrent ⟨d.elements.push e, ""⟩ input.consume.line).2, ?_, ?_, ?_⟩
    · show endStartTag _ ⟨e, attributes⟩ = _
      unfold endStartTag
      simp only [hempty]
      show State.change _ (.text .content)
        ((Document.closeCurrent ⟨d.elements.push e, ""⟩ input.consume.line).1, _) = _
      rw [hclosed, hpop, Document.elements_settled, placeOf_of_takesMarkup hbegins.markup]
      rfl
    · rw [actionEvents_append, hopen, hclose, List.append_assoc]
      rfl
    · rw [actionCauses_append, hopenCauses, hcloseCauses]
      rfl
  rw [between, placeOf_of_takesMarkup hbegins.markup, toList_startTag]
  have hall := (reads_startTagUpToEnd hbegins).trans hend
  rwa [List.nil_append, List.append_nil] at hall

end Reader

end Markup
