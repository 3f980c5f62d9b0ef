import Markup.Proofs.Admission
import Markup.Proofs.Reader.Sound

/-!
# What the reader does where something ends

The first part is about raw text: what is withheld while the reader looks for an end tag goes to the
text when it turns out not to be one. Then one lemma for each operation at the end of a reference, a
tag or an attribute says that it proceeds (`Proceeds`).
-/

namespace Markup

/-! ## Text of raw elements -/

/-- The line end that a text loses. -/
theorem toList_of_dropLineEnd {text : String} (h : text.toList.getLast? = some '\n') :
    text.toList = (dropLineEnd text).toList ++ ['\n'] := by
  rw [dropLineEnd, if_pos h, String.toList_ofList]
  obtain ⟨cs, hcs⟩ := List.getLast?_eq_some_iff.1 h
  rw [hcs, List.dropLast_concat]

/-- A text that ends in no line end stays whole. -/
theorem dropLineEnd_of_ne {text : String} (h : text.toList.getLast? ≠ some '\n') :
    dropLineEnd text = text := by
  rw [dropLineEnd, if_neg h]

namespace Element.Verbatim

variable {e : Element} {text : String} {more rest rest' : List Char}

/-- Text goes on with characters that begin no end tag. -/
theorem append {suffix : String} (h : e.Verbatim text (suffix.toList ++ rest))
    (hreturn : '\r' ∉ suffix.toList)
    (hmore : Reader.Undelimited e.name.text.toList suffix.toList rest) :
    e.Verbatim (text ++ suffix) rest := by
  constructor
  · rw [String.toList_append, List.mem_append, not_or]
    exact ⟨h.noReturn, hreturn⟩
  · rw [String.toList_append]
    exact Reader.undelimited_append.2 ⟨h.undelimited, hmore⟩

/-- What follows a text does not matter if it stops the text. -/
theorem of_stops (h : e.Verbatim text rest) (htoken : isToken e.name.text = true)
    (hrest : Reader.Stops rest) (hrest' : Reader.Stops rest') : e.Verbatim text rest' := by
  have hname : ∀ x ∈ e.name.text.toList, Reader.isNameChar x = true := fun _ =>
    isNameChar_of_mem_token htoken
  refine ⟨h.noReturn, (Reader.undelimited_iff_of_stops hname hrest').2 ?_⟩
  exact (Reader.undelimited_iff_of_stops hname hrest).1 h.undelimited

/-- A character that stops the text may as well be another one that does. -/
theorem replace {c c' : Char} (h : e.Verbatim text (c :: rest))
    (htoken : isToken e.name.text = true) (hc : Reader.isNameChar c = false ∧ c ≠ '/')
    (hc' : Reader.isNameChar c' = false ∧ c' ≠ '/') :
    e.Verbatim text (c' :: rest') :=
  h.of_stops htoken (Reader.stops_cons hc.1 hc.2) (Reader.stops_cons hc'.1 hc'.2)

/-- A text that loses its last line end still stands for itself. -/
theorem dropLineEnd (h : e.Verbatim text []) (htoken : isToken e.name.text = true) :
    e.Verbatim (dropLineEnd text) [] := by
  by_cases hlast : text.toList.getLast? = some '\n'
  · have hsplit := toList_of_dropLineEnd hlast
    have hshort : e.Verbatim (Markup.dropLineEnd text) ['\n'] := by
      constructor
      · intro hmem
        exact h.noReturn (by rw [hsplit]; exact List.mem_append_left _ hmem)
      · have hundelimited := h.undelimited
        rw [hsplit] at hundelimited
        exact (Reader.undelimited_append.1 hundelimited).1
    exact hshort.of_stops htoken (Reader.stops_cons (by decide) (by decide)) Reader.stops_nil
  · rw [dropLineEnd_of_ne hlast]
    exact h

end Element.Verbatim

namespace Reader

/-- The characters that spell a token in any case are name characters. -/
theorem isNameChar_of_spelling {name spelling expected : List Char}
    (hname : ∀ x ∈ name, isNameChar x = true)
    (h : (spelling ++ expected).map Char.toUpper = name.map Char.toUpper) :
    ∀ c ∈ spelling, isNameChar c = true := by
  intro c hc
  have hmem : c.toUpper ∈ name.map Char.toUpper := by
    rw [← h, List.map_append]
    exact List.mem_append_left _ (List.mem_map_of_mem hc)
  obtain ⟨x, hx, hxc⟩ := List.mem_map.1 hmem
  rw [← isNameChar_toUpper, ← hxc, isNameChar_toUpper]
  exact hname x hx

/-- What was withheld for an end tag begins none when the end tag does not go on. -/
theorem undelimited_withheld {name spelling expected rest : List Char}
    (hname : ∀ x ∈ name, isNameChar x = true)
    (h : (spelling ++ expected).map Char.toUpper = name.map Char.toUpper)
    (hrest : beginsWithName expected rest = false) :
    Undelimited name ('<' :: '/' :: spelling) rest := by
  refine ⟨?_, beginsEndTag_of_ne (by decide), undelimited_of_forall_ne fun c hc => ?_⟩
  · rw [List.cons_append, beginsEndTag, beginsWithName_of_spelling h, hrest]
    rfl
  · exact ne_of_isNameChar (isNameChar_of_spelling hname h c hc) (by decide)

/-! ## What comes next -/

/-- The character that a step is given is the one that comes next. -/
def State.Sees (s : State) : Option Char → Prop
  | none => s.ahead = []
  | some c => s.ahead = c :: s.take.ahead

/-- What comes next is the character that a look at the input finds. -/
theorem sees_of_peek {s : State} {input : Input} {c? : Option Char}
    (h : (s.input.hold s.mode.isHeld).peek = (.ok c?, input)) :
    State.Sees { s with input } c? := by
  have hspec := (s.input.hold s.mode.isHeld).peek_spec
  rw [h] at hspec
  cases c? with
  | none =>
    show Source.readable input.upcoming = []
    rw [hspec.2]
    rfl
  | some c =>
    show Source.readable input.upcoming = c :: Source.readable input.consume.upcoming
    rw [hspec.2, hspec.1]
    rfl

section

variable {g : Grammar} {s t : State} {c? : Option Char} {place : Place} {site : Site} {e : Element}

/-! ## Going on -/

/-- Where no end tag is withheld, nothing is asked of raw text. -/
theorem rawSound_of_none (h : t.mode.withheld? = none) : t.RawSound := by
  intro e withheld he
  rw [h] at he
  cases he

/-- No problem is no misplaced tag. -/
theorem noMisplaced : ∀ cause ∈ ([] : List IssueCause), cause.isMisplacedTag = false :=
  List.forall_mem_nil _

/-- A step without events that only adds to the text or goes on in another mode. -/
theorem proceeds_quiet {actions : List Action} (hs : s.Sound g)
    (hevents : actionEvents actions = [])
    (hcauses : ∀ cause ∈ actionCauses actions, cause.isMisplacedTag = false)
    (helements : t.document.elements = s.document.elements)
    (hfits : t.mode.Fits g s.document.elements) (helement : t.mode.element? = s.mode.element?)
    (hraw : t.RawSound) : Proceeds g s (actions, .running t) := by
  refine ⟨.quiet hevents hcauses helements helement, ?_, ?_, hraw⟩
  · rw [helements]
    exact hs.elements
  · rw [helements]
    exact hfits

/-- Going on in a mode outside raw text. -/
theorem proceeds_goto {mode : Mode} (hs : s.Sound g)
    (helements : t.document.elements = s.document.elements)
    (hfits : mode.Fits g s.document.elements) (helement : mode.element? = s.mode.element?)
    (hraw : mode.withheld? = none) : Proceeds g s (t.goto mode) :=
  proceeds_quiet hs rfl noMisplaced helements hfits helement (rawSound_of_none hraw)

/-- Going on in a mode outside raw text after a problem. -/
theorem proceeds_report {mode : Mode} {cause : IssueCause} (hs : s.Sound g)
    (hcause : cause.isMisplacedTag = false)
    (helements : t.document.elements = s.document.elements)
    (hfits : mode.Fits g s.document.elements) (helement : mode.element? = s.mode.element?)
    (hraw : ({ t with mode } : State).RawSound) : Proceeds g s (t.report cause mode) := by
  refine proceeds_quiet hs rfl (fun other hother => ?_) helements hfits helement hraw
  rw [List.mem_singleton.1 hother]
  exact hcause

/-- In raw text only its own element counts. -/
theorem rawSound_of_withheld {withheld : List Char} (hmode : t.mode.withheld? = some (e, withheld))
    (h : e.content = .cdata → e.Verbatim t.document.pending (withheld ++ t.ahead)) :
    t.RawSound := by
  intro x seen hseen
  rw [hmode] at hseen
  simp only [Option.some.injEq, Prod.mk.injEq] at hseen
  obtain ⟨rfl, rfl⟩ := hseen
  exact h

/-- Where references are recognised, text is not written as it is. -/
theorem rawSound_of_honoursReferences (hmode : t.mode = .text place)
    (h : place.honoursReferences = true) : t.RawSound := by
  cases place with
  | content => exact rawSound_of_none (congrArg Mode.withheld? hmode)
  | raw e =>
    refine rawSound_of_withheld (congrArg Mode.withheld? hmode) fun hcdata => ?_
    rw [Place.honoursReferences, hcdata] at h
    cases h

/-- Going on after a reference. -/
theorem proceeds_resume (hs : s.Sound g) (helements : t.document.elements = s.document.elements)
    (hfits : site.Fits g s.document.elements) (helement : site.element? = s.mode.element?)
    (text : String) : Proceeds g s (t.resume site text) := by
  cases site with
  | text place =>
    exact proceeds_quiet hs rfl noMisplaced helements hfits.1 helement
      (rawSound_of_honoursReferences rfl hfits.2)
  | value v => exact proceeds_goto hs helements ⟨hfits.tag, hfits.name⟩ helement rfl

/-! ## References -/

/-- After a numeric reference its character, or its spelling, is text or part of a value. -/
theorem proceeds_endNumeric {hexadecimal : Bool} {digits : List Char} (hs : s.Sound g)
    (helements : t.document.elements = s.document.elements)
    (hfits : site.Fits g s.document.elements) (helement : site.element? = s.mode.element?) :
    Proceeds g s (endNumeric t site hexadecimal digits) := by
  unfold endNumeric
  split
  · exact proceeds_resume hs helements hfits helement _
  · cases site with
    | text place =>
      exact proceeds_quiet hs rfl noMisplaced helements hfits.1 helement
        (rawSound_of_honoursReferences rfl hfits.2)
    | value v =>
      exact proceeds_quiet hs rfl noMisplaced helements hfits helement
        (rawSound_of_none rfl)

/-- After the name of an entity in text its replacement is read, or the name is text, or a space is
delivered. -/
theorem proceeds_endTextEntity {name : String} (hs : s.Sound g)
    (hmode : s.mode = .entityName (.text place) name) (hdocument : t.document = s.document) :
    Proceeds g s (endTextEntity g t place name) := by
  have hfits := hs.fits hmode
  obtain ⟨hplace, hhonours⟩ := hfits
  have helements : t.document.elements = s.document.elements := by rw [hdocument]
  have helement : (Mode.text place).element? = s.mode.element? :=
    (State.element?_of_mode hmode rfl).symm
  have hraw (u : State) (hu : u.mode = .text place) : u.RawSound :=
    rawSound_of_honoursReferences hu hhonours
  unfold endTextEntity
  split
  · rename_i hspace
    rw [hdocument]
    refine ⟨.space hmode hspace rfl rfl, ?_, ?_, hraw _ rfl⟩
    · show (s.document.space t.input.line).1.elements.Sound g.dtd
      rw [Document.elements_space]
      exact hs.elements
    · show place.Fits (s.document.space t.input.line).1.elements
      rw [Document.elements_space]
      exact hplace
  · split
    · exact proceeds_report hs rfl helements hplace helement (hraw _ rfl)
    · split
      · exact proceeds_quiet hs rfl noMisplaced helements hplace helement (hraw _ rfl)
      · exact proceeds_report hs rfl helements hplace helement (hraw _ rfl)

/-- In a value the replacement of an entity is added at once. -/
theorem proceeds_endEntity {name : String} {terminated : Bool} (hs : s.Sound g)
    (hmode : s.mode = .entityName site name) (hdocument : t.document = s.document) :
    Proceeds g s (endEntity g t site name terminated) := by
  cases site with
  | text place => exact proceeds_endTextEntity hs hmode hdocument
  | value v =>
    have hfits : (Site.value v).Fits g s.document.elements := hs.fits hmode
    exact proceeds_resume hs (by rw [hdocument]) hfits (State.element?_of_mode hmode rfl).symm _

/-! ## Tags -/

/-- Tags are recognised wherever elements have ended. -/
theorem takesMarkup_of_drop {g : Grammar} {s s' : OpenElements} {n : Nat} (hs : s.Sound g.dtd)
    (hmarkup : s.takesMarkup = true) (hstack : s'.stack = s.stack.drop n) :
    s'.takesMarkup = true := by
  unfold OpenElements.takesMarkup
  rw [hstack]
  cases n with
  | zero => exact hmarkup
  | succ n =>
    cases hdrop : s.stack.drop (n + 1) with
    | nil => rfl
    | cons e es =>
      refine hs.enclosing e (List.mem_of_mem_drop (i := n) ?_)
      rw [List.drop_tail, hdrop]
      exact List.mem_cons_self

/-- Tags are recognised after an end tag, whatever it closes. -/
theorem takesMarkup_closeElement {d : Document} {line : Nat} {name : Name}
    (hd : d.elements.Sound g.dtd) (hmarkup : d.elements.takesMarkup = true) :
    (d.closeElement line name).1.elements.takesMarkup = true := by
  unfold Document.closeElement
  split
  · exact takesMarkup_of_drop hd hmarkup (Document.stack_closeMany _ _ _ _)
  · exact hmarkup

/-- An end tag of a declared element closes elements; another is reported, or passed on as an event.
-/
theorem proceeds_endEndTag {name : Name} (hs : s.Sound g) (hmode : s.mode = .endTagRest name)
    (hdocument : t.document = s.document) : Proceeds g s (endEndTag g t name) := by
  have hfits := hs.fits hmode
  obtain ⟨hmarkup, htoken⟩ := hfits
  unfold endEndTag
  split
  · rename_i hdeclared
    obtain ⟨causes, hregular⟩ := Document.keeps_closeElement t.input.line hs.elements hmarkup name
    rw [hdocument]
    refine ⟨.closed hmode hdeclared rfl rfl, hregular.sound hs.elements, ?_, rawSound_of_none rfl⟩
    exact takesMarkup_closeElement hs.elements hmarkup
  · rename_i hdeclared
    split
    · exact proceeds_report hs rfl (by rw [hdocument]) hmarkup
        (State.element?_of_mode hmode rfl).symm (rawSound_of_none rfl)
    · rename_i hrule
      rw [hdocument]
      exact ⟨.unknown hmode (by simpa using hdeclared) hrule rfl rfl, hs.elements, hmarkup,
        rawSound_of_none rfl⟩

/-- The declaration of a name that was spelt can be named. -/
theorem spells_of_element? {d : Dtd} {name : String} (htoken : isToken name = true)
    (he : d.element? (.fold name) = some e) : d.Spells e := by
  have hname : e.name = .fold name := Name.ext (Registry.find?_eq_some he).2
  exact ⟨by rw [hname, he], by rw [hname]; exact isToken_fold htoken⟩

/-- There is room for an element once room has been made for it. -/
theorem hasRoom_makeRoom {d : Document} (line : Nat) (hd : d.elements.Sound g.dtd)
    (hmarkup : d.elements.takesMarkup = true) (e : Element) :
    (d.makeRoom g.dtd line e).1.elements.HasRoom g.dtd e := by
  obtain ⟨causes, hregular⟩ := Document.keeps_makeRoom line hd hmarkup e
  have hcached := (hregular.sound hd).cached
  revert hcached
  unfold Document.makeRoom
  split
  · rename_i hadmits
    exact fun _ => .inl hadmits
  · split
    · rename_i n hn
      intro hcached
      rw [Document.elements_settled, Document.stack_closeMany] at hcached
      left
      rw [hcached]
      exact OpenElements.admits_of_closingsFor hn
    · rename_i hnone
      exact fun _ => .inr hnone

/-- Tags are recognised where room has been made. -/
theorem takesMarkup_makeRoom {d : Document} (line : Nat) (hd : d.elements.Sound g.dtd)
    (hmarkup : d.elements.takesMarkup = true) (e : Element) :
    (d.makeRoom g.dtd line e).1.elements.takesMarkup = true := by
  unfold Document.makeRoom
  split
  · exact hmarkup
  · split
    · exact takesMarkup_of_drop hd hmarkup (Document.stack_closeMany _ _ _ _)
    · exact hmarkup

/-- At the name of a declared element room is made for it; a tag of another name is passed over. -/
theorem proceeds_endStartTagName {name : String} (hs : s.Sound g)
    (hmode : s.mode = .startTagName name) (hdocument : t.document = s.document) :
    Proceeds g s (endStartTagName g t (.fold name)) := by
  have hfits := hs.fits hmode
  obtain ⟨hmarkup, htoken⟩ := hfits
  unfold endStartTagName
  split
  · exact proceeds_report hs rfl (by rw [hdocument]) hmarkup
      (State.element?_of_mode hmode rfl).symm (rawSound_of_none rfl)
  · rename_i e he
    obtain ⟨causes, hregular⟩ := Document.keeps_makeRoom t.input.line hs.elements hmarkup e
    rw [hdocument]
    refine ⟨.room hmode he rfl rfl, hregular.sound hs.elements, ?_, rawSound_of_none rfl⟩
    exact ⟨takesMarkup_makeRoom _ hs.elements hmarkup e, spells_of_element? htoken he,
      List.forall_mem_nil _, hasRoom_makeRoom _ hs.elements hmarkup e⟩

/-- An attribute joins the tag, declared or not. -/
theorem proceeds_endAttribute {tag : Tag} {name : Name} {value : String} (hs : s.Sound g)
    (helements : t.document.elements = s.document.elements)
    (hfits : tag.Fits g s.document.elements) (htoken : isToken name.text = true)
    (helement : s.mode.element? = some tag.element) :
    Proceeds g s (endAttribute g t tag name value) := by
  have hinsert : Tag.Fits g s.document.elements
      { tag with attributes := tag.attributes.insert ⟨name.text, value⟩ } := by
    refine ⟨hfits.markup, hfits.spelt, fun a ha => ?_, hfits.room⟩
    rcases Registry.mem_insertInto ha with rfl | ha
    · exact ⟨name.upper, htoken⟩
    · exact hfits.attributes a ha
  unfold endAttribute
  split
  · exact proceeds_report hs rfl helements hinsert helement.symm (rawSound_of_none rfl)
  · exact proceeds_goto hs helements hinsert helement.symm rfl

/-- After a start tag its element is open, or has been closed at once because it is empty. -/
theorem proceeds_endStartTag {tag : Tag} (hs : s.Sound g) (hmode : s.mode = .attributes tag)
    (hdocument : t.document = s.document) : Proceeds g s (endStartTag t tag) := by
  have hfits := hs.fits hmode
  obtain ⟨hmarkup, hspelt, hattributes, hroom⟩ := hfits
  have hopened (hempty : tag.element.content ≠ .empty) {place : Place}
      (hfits : place.Fits (s.document.elements.push tag.element))
      (hraw : State.RawSound ⟨t.input, .text place, s.document.elements.push tag.element, ""⟩) :
      Proceeds g s
        (t.change (.text place) (s.document.openElement t.input.line tag.element tag.attributes)) :=
    ⟨.opened hmode hempty rfl rfl, hs.elements.push hmarkup hspelt hempty, hfits, hraw⟩
  have hrawOpened {e : Element} {input : Input} {elements : OpenElements} :
      State.RawSound ⟨input, .text (.raw e), elements, ""⟩ := by
    exact rawSound_of_withheld rfl fun _ => ⟨by simp, trivial⟩
  unfold endStartTag
  rw [hdocument]
  split
  · rename_i hempty
    let ended := (s.document.openElement t.input.line tag.element tag.attributes).1.closeCurrent
      t.input.line
    have helements : ended.1.elements = s.document.elements := by
      show (((s.document.openElement _ _ _).1.closeCurrent _).1.elements = _)
      rw [Document.openElement_eq, Document.closeCurrent_eq
        (d := ⟨s.document.elements.push tag.element, ""⟩) _ rfl]
      exact hs.elements.pop_push _
    have hsound : ended.1.elements.Sound g.dtd := by
      rw [helements]
      exact hs.elements
    have hfits : ended.1.elements.takesMarkup = true := by
      rw [helements]
      exact hmarkup
    exact ⟨.empty hmode hempty rfl rfl, hsound, hfits, rawSound_of_none rfl⟩
  · rename_i hcdata
    refine hopened (by rw [hcdata]; decide) ⟨rfl, ?_⟩ hrawOpened
    rw [hcdata]
    rfl
  · rename_i hrcdata
    refine hopened (by rw [hrcdata]; decide) ⟨rfl, ?_⟩ hrawOpened
    rw [hrcdata]
    rfl
  · rename_i hempty hcdata hrcdata
    refine hopened hempty ?_ (rawSound_of_none rfl)
    show tag.element.takesMarkup = true
    unfold Element.takesMarkup
    cases hcontent : tag.element.content <;> first | rfl | contradiction

end

end Reader

end Markup
