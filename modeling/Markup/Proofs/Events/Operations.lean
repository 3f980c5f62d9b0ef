import Markup.Proofs.Events.Regular

/-!
# Operations on a document deliver regular events

Each operation on a document is described once by what it delivers and by the problems it reports:
a flush delivers the text or nothing (`exists_flushed`), and the operations on elements deliver one
tag after a flush. `Keeps g d actions d'` says that the events among the actions lead regularly
from `d` to `d'`, once the text that is still pending is left out on both sides.
-/

namespace Markup

/-! ## Events and problems among actions -/

/-- The events that actions deliver. -/
def actionEvents (actions : List Action) : List Event :=
  actions.filterMap Action.event?

/-- The causes of the issues that actions record. -/
def actionCauses (actions : List Action) : List IssueCause :=
  (actions.filterMap Action.issue?).map Issue.cause

section

variable (actions more : List Action)

@[simp] theorem actionEvents_nil : actionEvents [] = [] := rfl

@[simp] theorem actionEvents_checkpoint :
    actionEvents (.checkpoint :: actions) = actionEvents actions := rfl

@[simp] theorem actionEvents_deliver (event : Event) :
    actionEvents (.deliver event :: actions) = event :: actionEvents actions := rfl

@[simp] theorem actionEvents_report (issue : Issue) :
    actionEvents (.report issue :: actions) = actionEvents actions := rfl

@[simp] theorem actionEvents_note (remark : String) :
    actionEvents (.note remark :: actions) = actionEvents actions := rfl

/-- Actions have the events of their parts. -/
@[simp] theorem actionEvents_append :
    actionEvents (actions ++ more) = actionEvents actions ++ actionEvents more :=
  List.filterMap_append

@[simp] theorem actionCauses_nil : actionCauses [] = [] := rfl

@[simp] theorem actionCauses_checkpoint :
    actionCauses (.checkpoint :: actions) = actionCauses actions := rfl

@[simp] theorem actionCauses_deliver (event : Event) :
    actionCauses (.deliver event :: actions) = actionCauses actions := rfl

@[simp] theorem actionCauses_report (issue : Issue) :
    actionCauses (.report issue :: actions) = issue.cause :: actionCauses actions := rfl

@[simp] theorem actionCauses_note (remark : String) :
    actionCauses (.note remark :: actions) = actionCauses actions := rfl

/-- Actions have the causes of their parts. -/
@[simp] theorem actionCauses_append :
    actionCauses (actions ++ more) = actionCauses actions ++ actionCauses more := by
  simp [actionCauses]

end

/-- An issue among those of a trace is recorded by one of its actions. -/
theorem Trace.report_mem {t : Trace} {issue : Issue} (h : issue ∈ t.issues) :
    .report issue ∈ t.actions := by
  obtain ⟨action, hmem, hissue⟩ := List.mem_filterMap.1 h
  cases action <;> cases hissue
  exact hmem

/-! ## Flushing -/

/-- Actions that flush a text as content of a type deliver a part of it: all or nothing. -/
structure Flushed (d : Document) (content : ContentType) (text : String) (actions : List Action)
    (delivered : String) : Prop where
  /-- The part is delivered. -/
  events : actionEvents actions = textEvents delivered
  /-- The only problem is text in the wrong place. -/
  causes : ∀ cause ∈ actionCauses actions, ∃ text name, cause = .unexpectedText text name
  /-- All or nothing. -/
  part : delivered = "" ∨ delivered = text
  /-- The part would be delivered again. -/
  deliverable : Document.Deliverable { d with pending := delivered } content

namespace Document

variable {d d' d'' : Document} {g : Grammar} {content : ContentType} {e : Element}
  {attributes : Attributes} {actions more : List Action}

/-- Adding no text changes nothing. -/
@[simp] theorem append_empty (d : Document) : d.append "" = d := by
  simp [append]

/-- Adding one text after another is adding both. -/
theorem append_append (d : Document) (text more : String) :
    (d.append text).append more = d.append (text ++ more) := by
  simp only [append, String.append_assoc]

/-- A text is delivered, refused or left out. -/
theorem exists_flushed_textActions (d : Document) (line : Nat) (content : ContentType)
    (text : String) :
    ∃ delivered, Flushed d content text (d.textActions line content text) delivered := by
  -- nothing is delivered from a text that is empty, blank outside all elements or not permitted
  have nothing {actions : List Action} (hevents : actionEvents actions = [])
      (hcauses : ∀ cause ∈ actionCauses actions, ∃ text name, cause = .unexpectedText text name) :
      ∃ delivered, Flushed d content text actions delivered :=
    ⟨"", hevents, hcauses, .inl rfl, deliverable_of_empty rfl content⟩
  unfold textActions
  split
  · exact nothing rfl (by simp)
  · rename_i htext
    have whole (h : Document.Deliverable { d with pending := text } content) :
        ∃ delivered, Flushed d content text [.deliver (.characterData text false)] delivered :=
      ⟨text, by simp [textEvents, htext], by simp, .inr rfl, h⟩
    split
    · rename_i hnone
      split
      · exact nothing rfl (by simp)
      · rename_i hblank
        refine whole fun _ => ?_
        simp only [hnone]
        simpa using hblank
    · rename_i current hsome
      split
      · rename_i hpermits
        refine whole fun _ => ?_
        simp only [hsome]
        exact hpermits
      · split
        · exact nothing rfl (by simp)
        · exact nothing rfl (by simp)

/-- A flush delivers the text, or nothing. -/
theorem exists_flushed (d : Document) (line : Nat) (content : ContentType) (beforeEnd : Bool) :
    ∃ delivered, Flushed d content (if beforeEnd then dropLineEnd d.pending else d.pending)
      (d.flushAs line content beforeEnd).2 delivered := by
  obtain ⟨delivered, hevents, hcauses, hpart, hdeliverable⟩ :=
    d.exists_flushed_textActions line content
      (if beforeEnd then dropLineEnd d.pending else d.pending)
  exact ⟨delivered, hevents, hcauses, hpart, hdeliverable⟩

/-- A text that can be delivered is delivered whole, without a problem. -/
theorem flushAs_of_deliverable {text : String} (beforeEnd : Bool) (line : Nat)
    (htext : (if beforeEnd then dropLineEnd d.pending else d.pending) = text)
    (h : Document.Deliverable { d with pending := text } content) :
    actionEvents (d.flushAs line content beforeEnd).2 = textEvents text ∧
      actionCauses (d.flushAs line content beforeEnd).2 = [] := by
  have hactions : (d.flushAs line content beforeEnd).2 =
      .checkpoint :: d.textActions line content text := by rw [← htext]; rfl
  rw [hactions, actionEvents_checkpoint, actionCauses_checkpoint]
  unfold textActions textEvents
  by_cases hempty : text = ""
  · rw [if_pos hempty, if_pos hempty]
    exact ⟨rfl, rfl⟩
  · rw [if_neg hempty, if_neg hempty]
    have hwhole := h hempty
    split at hwhole
    · rename_i hnone
      have hnone' : d.elements.current? = none := hnone
      have hblank : Text.allBlank text = false := hwhole
      rw [hnone', hblank]
      exact ⟨rfl, rfl⟩
    · rename_i current hsome
      have hsome' : d.elements.current? = some current := hsome
      rw [hsome', hwhole]
      exact ⟨rfl, rfl⟩

/-- A flush before an end tag of a document without text does nothing. -/
theorem actionEvents_flush_of_settled (line : Nat) (h : d.pending = "") :
    actionEvents (d.flush line true).2 = [] := by
  obtain ⟨delivered, hflush⟩ := d.exists_flushed line d.elements.content true
  rw [flush, hflush.events]
  have hempty : delivered = "" := by
    rcases hflush.part with hpart | hpart
    · exact hpart
    · rw [hpart, h]
      rfl
  rw [hempty]
  rfl

/-! ## Elements -/

/-- An element opens after the text before its start tag. -/
theorem openElement_eq (d : Document) (line : Nat) (e : Element) (attributes : Attributes) :
    d.openElement line e attributes =
      (⟨d.elements.push e, ""⟩,
        (d.flush line false).2 ++ [.deliver (.startTag e attributes)]) := rfl

/-- An element closes after the text before its end tag. -/
theorem closeCurrent_eq (line : Nat) (h : d.elements.current? = some e) :
    d.closeCurrent line =
      (⟨d.elements.pop, ""⟩, (d.flush line true).2 ++ [.deliver (.endTag e)]) := by
  simp only [closeCurrent, h]
  rfl

/-- An element begins after a text that can be delivered. -/
theorem openElement_of_deliverable (line : Nat) (e : Element) (attributes : Attributes)
    (h : d.Deliverable d.elements.content) :
    actionEvents (d.openElement line e attributes).2 =
        textEvents d.pending ++ [.startTag e attributes] ∧
      actionCauses (d.openElement line e attributes).2 = [] := by
  obtain ⟨hevents, hcauses⟩ := d.flushAs_of_deliverable false line rfl h
  rw [openElement_eq, flush, actionEvents_append, hevents, actionCauses_append, hcauses]
  exact ⟨rfl, rfl⟩

/-- An element ends after a text that can be delivered without its last line end. -/
theorem closeCurrent_of_deliverable {text : String} (line : Nat)
    (he : d.elements.current? = some e) (htext : dropLineEnd d.pending = text)
    (h : Document.Deliverable { d with pending := text } d.elements.content) :
    actionEvents (d.closeCurrent line).2 = textEvents text ++ [.endTag e] ∧
      actionCauses (d.closeCurrent line).2 = [] := by
  obtain ⟨hevents, hcauses⟩ := d.flushAs_of_deliverable true line htext h
  rw [closeCurrent_eq line he, flush, actionEvents_append, hevents, actionCauses_append, hcauses]
  exact ⟨rfl, rfl⟩

/-- At the end of the document the innermost element ends first. -/
theorem finish_of_current (line : Nat) (he : d.elements.current? = some e) :
    (d.finish line).2 = (d.closeCurrent line).2 ++ ((d.closeCurrent line).1.finish line).2 := by
  have hstack : (d.closeCurrent line).1.elements.stack = d.elements.pop.stack := by
    rw [closeCurrent_eq line he]
  rcases hrest : closeMany (fun _ => []) line d.elements.pop.stack.length (d.closeCurrent line).1
    with ⟨d', closing⟩
  have hmany : closeMany (fun _ => []) line d.elements.stack.length d =
      (d', (d.closeCurrent line).2 ++ closing) := by
    rw [OpenElements.stack_of_current he, List.length_cons]
    simp only [closeMany, hrest, he, Option.map_some, Option.getD_some, List.nil_append]
  unfold finish
  rw [hmany, hstack, hrest]
  simp only [List.append_assoc]

/-- A space is delivered after the text before it, where text is permitted. -/
theorem space_eq (d : Document) (line : Nat) :
    d.space line =
      if (d.elements.content.permitsText || d.elements.stack.isEmpty) = true then
        (d.settled, (d.flush line false).2 ++ [.deliver (.characterData " " true)])
      else (d.settled, (d.flush line false).2) := rfl

/-- A space opens and closes nothing. -/
@[simp] theorem elements_space (d : Document) (line : Nat) :
    (d.space line).1.elements = d.elements := by
  rw [space_eq]
  split <;> rfl

/-- The elements that stay open after some have ended. -/
theorem stack_closeMany (remark : Element → List Action) (line n : Nat) (d : Document) :
    (closeMany remark line n d).1.elements.stack = d.elements.stack.drop n := by
  induction n generalizing d with
  | zero => rfl
  | succ n ih =>
    simp only [closeMany]
    rw [ih]
    cases hcurrent : d.elements.current? with
    | none =>
      have hstack : d.elements.stack = [] := OpenElements.current?_eq_none.1 hcurrent
      simp [closeCurrent, hcurrent, hstack]
    | some e => simp [closeCurrent_eq _ hcurrent]

/-- There are as many open elements as would have to end for the innermost one of a name. -/
theorem length_of_closingsThrough {s : OpenElements} {name : Name} {n : Nat}
    (h : s.closingsThrough? name = some n) : n ≤ s.stack.length := by
  unfold OpenElements.closingsThrough? at h
  rw [Option.map_eq_some_iff] at h
  obtain ⟨i, hi, rfl⟩ := h
  exact (List.findIdx?_eq_some_iff_findIdx_eq.1 hi).1

/-- There are as many open elements as would have to end for an element to be admitted. -/
theorem length_of_closingsFor {s : OpenElements} {dtd : Dtd} {n : Nat}
    (h : s.closingsFor? dtd e = some n) : n ≤ s.stack.length := by
  have hmem := List.mem_of_find?_eq_some h
  rw [List.mem_map] at hmem
  obtain ⟨i, hi, rfl⟩ := hmem
  exact List.mem_range.1 hi

/-! ## Regular changes -/

/-- The events among actions lead regularly from one document to another. -/
def Keeps (g : Grammar) (d : Document) (actions : List Action) (d' : Document) : Prop :=
  ∃ causes, Regular g d.settled (actionEvents actions) causes d'.settled

/-- Without events the document is what it was, but for text that is pending. -/
theorem Keeps.refl (h : d'.elements = d.elements) (hevents : actionEvents actions = []) :
    Keeps g d actions d' := by
  have hsettled : d'.settled = d.settled := by
    simp only [settled, h]
  exact ⟨[], by rw [hevents, hsettled]; exact .refl _⟩

/-- What keeps the document in two parts keeps it as a whole. -/
theorem Keeps.trans (h : Keeps g d actions d') (h' : Keeps g d' more d'') :
    Keeps g d (actions ++ more) d'' := by
  obtain ⟨causes, hregular⟩ := h
  obtain ⟨others, hregular'⟩ := h'
  exact ⟨causes ++ others, by rw [actionEvents_append]; exact hregular.trans hregular'⟩

/-- A flush followed by a passage from the document with the flushed text. -/
theorem keeps_flushAs {line : Nat} {beforeEnd : Bool} (events : List Event)
    (hcontent : d.elements.content ≠ .cdata)
    (hevents : actionEvents actions = actionEvents (d.flushAs line content beforeEnd).2 ++ events)
    (hpassage : ∀ text, Document.Deliverable { d with pending := text } content →
      ∃ causes, Passage g { d with pending := text } events causes d'.settled) :
    Keeps g d actions d' := by
  obtain ⟨delivered, hflush⟩ := d.exists_flushed line content beforeEnd
  obtain ⟨causes, hpassage⟩ := hpassage delivered hflush.deliverable
  refine ⟨[] ++ causes, ?_⟩
  rw [hevents, hflush.events]
  exact (regular_textEvents delivered hcontent).trans hpassage.regular

/-- Beginning an element where there is room for it. -/
theorem keeps_openElement (line : Nat) (hd : d.elements.Sound g.dtd)
    (hmarkup : d.elements.takesMarkup = true) (he : g.dtd.Spells e)
    (hattributes : ∀ a ∈ attributes.items, a.Spelled)
    (hroom : d.elements.HasRoom g.dtd e) (hempty : e.content ≠ .empty) :
    Keeps g d (d.openElement line e attributes).2 (d.openElement line e attributes).1 := by
  refine keeps_flushAs _ (hd.content_ne_cdata hmarkup) (actionEvents_append _ _)
    fun text htext => ?_
  exact ⟨_, .opened ⟨hmarkup, he, hattributes, hroom, htext⟩ hempty⟩

/-- Ending the innermost element. -/
theorem keeps_closeCurrent (line : Nat) (hd : d.elements.Sound g.dtd)
    (he : d.elements.current? = some e)
    (hraw : e.content = .cdata → e.Verbatim (dropLineEnd d.pending) []) :
    Keeps g d (d.closeCurrent line).2 (d.closeCurrent line).1 := by
  rw [closeCurrent_eq _ he]
  by_cases hcdata : e.content = .cdata
  · -- the text and the end of the element are one passage
    obtain ⟨delivered, hflush⟩ := d.exists_flushed line d.elements.content true
    have hverbatim : e.Verbatim delivered [] := by
      rcases hflush.part with hpart | hpart
      · rw [hpart]
        exact ⟨by simp, trivial⟩
      · rw [hpart]
        exact hraw hcdata
    have hpassage := Passage.verbatim (g := g) (d := d.settled) he hcdata rfl hverbatim
    refine ⟨[], ?_⟩
    rw [actionEvents_append, flush, hflush.events]
    exact hpassage.regular
  · have hcontent : d.elements.content ≠ .cdata := by
      rw [hd.content_of_current he]
      exact hcdata
    refine keeps_flushAs _ hcontent (actionEvents_append _ _) fun text htext => ?_
    exact ⟨_, .closed he hcdata htext⟩

/-- An element without content begins and ends. -/
theorem keeps_emptyElement (line : Nat) (hd : d.elements.Sound g.dtd)
    (hmarkup : d.elements.takesMarkup = true) (he : g.dtd.Spells e)
    (hattributes : ∀ a ∈ attributes.items, a.Spelled)
    (hroom : d.elements.HasRoom g.dtd e) (hempty : e.content = .empty) :
    Keeps g d ((d.openElement line e attributes).2 ++
        ((d.openElement line e attributes).1.closeCurrent line).2)
      ((d.openElement line e attributes).1.closeCurrent line).1 := by
  rw [openElement_eq]
  have hcurrent : (d.elements.push e).current? = some e := rfl
  rw [closeCurrent_eq (d := ⟨d.elements.push e, ""⟩) line hcurrent]
  have hquiet := actionEvents_flush_of_settled (d := ⟨d.elements.push e, ""⟩) line rfl
  have hevents : actionEvents ((d.flush line false).2 ++ [.deliver (.startTag e attributes)] ++
      ((flush ⟨d.elements.push e, ""⟩ line true).2 ++ [.deliver (.endTag e)])) =
        actionEvents (d.flushAs line d.elements.content false).2 ++
          [.startTag e attributes, .endTag e] := by
    simp only [actionEvents_append, hquiet]
    simp [flush]
  refine keeps_flushAs _ (hd.content_ne_cdata hmarkup) hevents fun text htext => ?_
  rw [settled_mk, hd.pop_push]
  exact ⟨_, .empty ⟨hmarkup, he, hattributes, hroom, htext⟩ hempty⟩

/-- Ending elements from the inside. Only the innermost one can hold raw text. -/
theorem keeps_closeMany {remark : Element → List Action} (line : Nat) {n : Nat}
    (hremark : ∀ e, actionEvents (remark e) = []) (hd : d.elements.Sound g.dtd)
    (hn : n ≤ d.elements.stack.length)
    (hraw : ∀ e, d.elements.current? = some e → e.content = .cdata →
      e.Verbatim (dropLineEnd d.pending) []) :
    Keeps g d (closeMany remark line n d).2 (closeMany remark line n d).1 := by
  induction n generalizing d with
  | zero => exact .refl rfl rfl
  | succ n ih =>
    cases hcurrent : d.elements.current? with
    | none =>
      have hstack : d.elements.stack = [] := OpenElements.current?_eq_none.1 hcurrent
      rw [hstack] at hn
      cases hn
    | some e =>
      have hclose := keeps_closeCurrent line hd hcurrent (hraw e hcurrent)
      simp only [closeMany, hcurrent, Option.map_some, Option.getD_some, List.append_assoc]
      refine Keeps.trans (.refl rfl (hremark e)) (hclose.trans ?_)
      rw [closeCurrent_eq _ hcurrent]
      refine ih hd.pop ?_ fun x hx hcdata => ?_
      · simp only [OpenElements.stack_pop, List.length_tail]
        omega
      · -- inside the element that has ended only tags are recognised
        exact absurd hcdata (OpenElements.ne_cdata_of_current hd.takesMarkup_pop hx)

/-! ## Operations of the reader -/

/-- Ending the elements through the innermost one of a name. -/
theorem keeps_closeElement (line : Nat) (hd : d.elements.Sound g.dtd)
    (hmarkup : d.elements.takesMarkup = true) (name : Name) :
    Keeps g d (d.closeElement line name).2 (d.closeElement line name).1 := by
  unfold closeElement
  split
  · rename_i n hn
    refine keeps_closeMany _ (fun _ => rfl) hd (length_of_closingsThrough hn) fun e he hcdata => ?_
    exact absurd hcdata (OpenElements.ne_cdata_of_current hmarkup he)
  · exact .refl rfl rfl

/-- Making room for an element. -/
theorem keeps_makeRoom (line : Nat) (hd : d.elements.Sound g.dtd)
    (hmarkup : d.elements.takesMarkup = true) (e : Element) :
    Keeps g d (d.makeRoom g.dtd line e).2 (d.makeRoom g.dtd line e).1 := by
  unfold makeRoom
  split
  · exact .refl rfl rfl
  · split
    · rename_i n hn
      refine keeps_closeMany _ (fun _ => rfl) hd (length_of_closingsFor hn) fun x hx hcdata => ?_
      exact absurd hcdata (OpenElements.ne_cdata_of_current hmarkup hx)
    · exact .refl rfl rfl

/-- A space that does not break. -/
theorem keeps_space (line : Nat) (hcontent : d.elements.content ≠ .cdata)
    (hspace : g.dialect.spaceEntity.isSome = true) :
    Keeps g d (d.space line).2 (d.space line).1 := by
  rw [space_eq]
  split
  · rename_i hpermits
    refine keeps_flushAs _ hcontent (actionEvents_append _ _) fun text htext => ?_
    exact ⟨_, .space hcontent hpermits htext hspace⟩
  · rename_i hpermits
    -- no text is permitted here, so the flush delivers none
    obtain ⟨delivered, hflush⟩ := d.exists_flushed line d.elements.content false
    refine .refl rfl ?_
    rw [flush, hflush.events]
    by_cases hempty : delivered = ""
    · rw [hempty]
      rfl
    · exfalso
      have hdeliverable := hflush.deliverable hempty
      simp only [Bool.or_eq_true, List.isEmpty_iff, not_or, Bool.not_eq_true] at hpermits
      split at hdeliverable
      · rename_i hnone
        exact hpermits.2 (OpenElements.current?_eq_none.1 hnone)
      · rw [hpermits.1] at hdeliverable
        cases hdeliverable

/-- An end tag without a declared element. -/
theorem keeps_unknownEndTag (line : Nat) {name : Name} (hd : d.elements.Sound g.dtd)
    (hmarkup : d.elements.takesMarkup = true) (hrule : g.dialect.unknownEndTags = .synthesize)
    (hname : g.dtd.declares name = false) (htoken : isToken name.text = true) :
    Keeps g d ((d.flushAs line .pcdata true).2 ++ [.deliver (.endTag (.ofName name.text .pcdata))])
      (d.flushAs line .pcdata true).1 := by
  refine keeps_flushAs _ (hd.content_ne_cdata hmarkup) (actionEvents_append _ _)
    fun text htext => ?_
  exact ⟨_, .unknown hrule hname htoken hmarkup htext⟩

/-- The events of a whole document are regular, and then nothing is open or pending. -/
def Ends (g : Grammar) (d : Document) (events : List Event) : Prop :=
  ∃ body causes d', Regular g d.settled body causes d' ∧ d'.elements.stack = [] ∧
    d'.Deliverable d'.elements.content ∧ events = body ++ [.finished]

/-- Ending the document. -/
theorem ends_finish (line : Nat) (hd : d.elements.Sound g.dtd)
    (hraw : ∀ e, d.elements.current? = some e → e.content = .cdata →
      e.Verbatim (dropLineEnd d.pending) []) :
    Ends g d (actionEvents (d.finish line).2) := by
  have hstack := stack_closeMany (fun _ => []) line d.elements.stack.length d
  rw [List.drop_length] at hstack
  obtain ⟨causes, hclosed⟩ : Keeps g d _ (closeMany (fun _ => []) line _ d).1 :=
    keeps_closeMany line (fun _ => rfl) hd (Nat.le_refl _) hraw
  have hsound := hclosed.sound hd
  unfold finish
  rcases hmany : closeMany (fun _ => []) line d.elements.stack.length d with ⟨d₁, closing⟩
  rw [hmany] at hclosed hstack hsound
  have hcontent : d₁.elements.content ≠ .cdata := by
    intro hcdata
    have hnone : d₁.elements.current? = none := OpenElements.current?_eq_none.2 hstack
    have hmodel : d₁.elements.content = .modelPcdata := hsound.content_of_none hnone
    rw [hmodel] at hcdata
    cases hcdata
  obtain ⟨delivered, hflush⟩ := d₁.exists_flushed line d₁.elements.content true
  refine ⟨actionEvents closing ++ textEvents delivered, causes ++ [],
    { d₁ with pending := delivered }, ?_, hstack, hflush.deliverable, ?_⟩
  · exact hclosed.trans (regular_textEvents delivered hcontent)
  · simp only [flush, actionEvents_append, hflush.events]
    rfl

end Document

end Markup
