import Markup.Proofs.Admission
import Markup.Proofs.Rereading.Passages
import Markup.Proofs.Session.Passive
import Mathlib.Data.List.Chain

/-!
# Documents as forests

A document that nobody parsed can be put together as a forest of texts and elements. When every
node of it may stand where it stands (`ValidForest`), its events are regular
(`Node.Valid.continues` for a single node, by induction on the tree), so the markup that is written
for the forest is read as the forest (`collect_markup_forest`). Only undeclared attributes are worth
an issue then.
-/

namespace Markup

open OpenElements

/-- A part of a document. -/
inductive Node where
  /-- A text. -/
  | text (text : String)
  /-- An element with its attributes and all that it contains. -/
  | element (element : Element) (attributes : Attributes) (children : List Node)

namespace Node

/-- Whether a node is a text. -/
def isText : Node → Bool
  | text _ => true
  | element .. => false

/-- The text that a node leaves at its end. -/
def trailing : Node → String
  | text t => t
  | element .. => ""

mutual

/-- The events of a node. -/
def events : Node → List Event
  | text t => [.characterData t false]
  | element e attributes children =>
    .startTag e attributes :: (eventsOf children ++ [.endTag e])

/-- The events of a forest. -/
def eventsOf : List Node → List Event
  | [] => []
  | node :: nodes => node.events ++ eventsOf nodes

end

end Node

/-- The problems with the attributes of an event. -/
def Event.undeclared (g : Grammar) : Event → List IssueCause
  | .startTag e attributes => undeclaredAttributes g e attributes
  | _ => []

/-! ## Valid forests -/

/-- Whether a text may stand inside elements, listed from the inside: the innermost one permits
text, or there is none and the text is not blank. -/
def TextFits (ancestors : List Element) (text : String) : Prop :=
  match ancestors with
  | [] => Text.allBlank text = false
  | parent :: _ => parent.content.permitsText = true

/-- Whether an element may stand inside elements, listed from the inside: outside all elements it
always may. -/
structure ElementFits (ancestors : List Element) (e : Element) : Prop where
  /-- No element around it excludes it. -/
  allowed : ∀ x ∈ ancestors, x.excludes e.name = false
  /-- The content model of its parent has it, where a leaf has no content model, or some element
  around it includes it. -/
  admitted : ∀ parent, ancestors.head? = some parent →
    parent.accepts e.name = true ∨ ∃ x ∈ ancestors, x.includes e.name = true

/-- Whether a text may be all that an element contains whose text is written as it is. -/
structure Element.Encloses (e : Element) (text : String) : Prop where
  /-- A carriage return would be read as a line feed. -/
  noReturn : '\r' ∉ text.toList
  /-- Wherever the end tag of the element seems to begin, in any case, its name goes on. -/
  guarded : ∀ before spelling after,
    text.toList = before ++ ('<' :: '/' :: spelling) ++ after →
    spelling.map Char.toUpper = e.name.text.toList.map Char.toUpper →
    after.head?.any Reader.isNameChar = true

/-- What the content type of an element asks of the list of its children. -/
def Element.Holds (e : Element) (children : List Node) : Prop :=
  match e.content with
  | .empty => children = []
  | .rcdata => children = [] ∨ ∃ t, children = [.text t]
  | .cdata => children = [] ∨ ∃ t, children = [.text t] ∧ e.Encloses t
  | _ => True

/-- No two neighbours are texts. -/
def Spaced (nodes : List Node) : Prop :=
  nodes.IsChain fun x y => x.isText = true → y.isText = false

/-- A node may stand where it stands inside elements, listed from the inside, and so may all that
it contains. -/
inductive Node.Valid (d : Dtd) : List Element → Node → Prop
  /-- A text that is not empty. -/
  | text {ancestors : List Element} {t : String} : t ≠ "" → TextFits ancestors t →
      Valid d ancestors (.text t)
  /-- A declared element. -/
  | element {ancestors : List Element} {e : Element} {attributes : Attributes}
      {children : List Node} : d.Spells e → (∀ a ∈ attributes.items, a.Spelled) →
      ElementFits ancestors e → e.Holds children → Spaced children →
      (∀ child ∈ children, Valid d (e :: ancestors) child) →
      Valid d ancestors (.element e attributes children)

/-- A forest that can be a document. -/
structure ValidForest (d : Dtd) (forest : List Node) : Prop where
  /-- Each tree is valid outside all elements. -/
  valid : ∀ node ∈ forest, node.Valid d []
  /-- Texts are not neighbours. -/
  spaced : Spaced forest

variable {g : Grammar} {s : OpenElements} {e : Element} {ancestors : List Element}
  {attributes : Attributes} {node : Node} {nodes children : List Node} {pending : String}

/-- An element that fits is admitted. -/
theorem ElementFits.admits {d : Dtd} (h : ElementFits s.stack e) (hcached : s = ofStack s.stack) :
    s.admits d e = true := by
  rw [hcached, admits_ofStack]
  unfold admitsIn
  rw [Bool.and_eq_true]
  constructor
  · rw [Bool.not_eq_true', List.any_eq_false]
    intro x hx
    rw [h.allowed x hx]
    exact Bool.false_ne_true
  · cases hstack : s.stack with
    | nil => exact documentAdmits_nil d e
    | cons parent rest =>
      rw [Bool.or_eq_true, List.any_eq_true, ← hstack]
      exact h.admitted parent (by rw [hstack]; rfl)

/-- A text that fits is delivered. -/
theorem TextFits.deliverable (h : TextFits s.stack pending) (hs : s.Sound g.dtd) :
    Document.Deliverable ⟨s, pending⟩ s.content := by
  unfold TextFits at h
  cases hstack : s.stack with
  | nil =>
    rw [hstack] at h
    exact Document.deliverable_of_none (current?_eq_none.2 hstack) h _
  | cons parent rest =>
    rw [hstack] at h
    have hcurrent : s.current? = .some parent := by rw [current?, hstack]; rfl
    rw [hs.content_of_current hcurrent]
    exact Document.deliverable_of_current hcurrent h

/-! ## Lists of nodes -/

/-- Among these open elements the events of a node are regular: whatever text is pending, unless the
node is a text itself. -/
def Node.Continues (g : Grammar) (s : OpenElements) (node : Node) : Prop :=
  ∀ pending, Document.Deliverable ⟨s, pending⟩ s.content → (node.isText = true → pending = "") →
    Regular g ⟨s, pending⟩ node.events (node.events.flatMap (Event.undeclared g))
        ⟨s, node.trailing⟩ ∧
      Document.Deliverable ⟨s, node.trailing⟩ s.content

/-- Only a text leaves text at its end. -/
theorem Node.trailing_of_not_isText (h : node.isText = false) : node.trailing = "" := by
  cases node with
  | text => cases h
  | element => rfl

/-- The events of a list of nodes are regular when those of each node are. -/
theorem regular_eventsOf (hnodes : ∀ node ∈ nodes, node.Continues g s) (hspaced : Spaced nodes)
    (hdeliver : Document.Deliverable ⟨s, pending⟩ s.content)
    (hfirst : ∀ node, nodes.head? = some node → node.isText = true → pending = "") :
    ∃ text, Regular g ⟨s, pending⟩ (Node.eventsOf nodes)
        ((Node.eventsOf nodes).flatMap (Event.undeclared g)) ⟨s, text⟩ ∧
      Document.Deliverable ⟨s, text⟩ s.content := by
  induction nodes generalizing pending with
  | nil => exact ⟨pending, .refl _, hdeliver⟩
  | cons node nodes ih =>
    obtain ⟨hnode, htrailing⟩ := hnodes node List.mem_cons_self pending hdeliver (hfirst node rfl)
    -- the node leaves text only when a text does not come next
    have hnext : ∀ next, nodes.head? = some next → next.isText = true → node.trailing = "" := by
      intro next hhead htext
      obtain ⟨rest, rfl⟩ : ∃ rest, nodes = next :: rest := List.head?_eq_some_iff.1 hhead
      apply Node.trailing_of_not_isText
      have hapart := (List.isChain_cons_cons.1 hspaced).1
      rw [← Bool.not_eq_true]
      intro hnode
      rw [hapart hnode] at htext
      cases htext
    obtain ⟨text, hrest, htext⟩ := ih (fun x hx => hnodes x (List.mem_cons_of_mem _ hx))
      (List.IsChain.tail hspaced) htrailing hnext
    refine ⟨text, ?_, htext⟩
    rw [Node.eventsOf, List.flatMap_append]
    exact hnode.trans hrest

/-! ## Trees -/

/-- An element that fits begins where it stands, without a problem of its place. -/
theorem ElementFits.begins {d : Document} (h : ElementFits d.elements.stack e)
    (hd : d.elements.Sound g.dtd) (hmarkup : d.elements.takesMarkup = true)
    (hspelt : g.dtd.Spells e) (hattributes : ∀ a ∈ attributes.items, a.Spelled)
    (hdeliver : d.Deliverable d.elements.content) :
    d.Begins g e attributes ∧ misplacement g d.elements e = [] := by
  have hadmits := h.admits (d := g.dtd) hd.cached
  refine ⟨⟨hmarkup, hspelt, hattributes, .inl hadmits, hdeliver⟩, ?_⟩
  rw [misplacement, if_pos hadmits]

/-- The text of an element whose text is written as it is goes up to its end tag. -/
theorem regular_verbatim (hs : s.Sound g.dtd) (hcdata : e.content = .cdata)
    (hholds : e.Holds children) (hvalid : ∀ child ∈ children, child.Valid g.dtd (e :: ancestors)) :
    Regular g ⟨s.push e, ""⟩ (Node.eventsOf children ++ [.endTag e])
      ((Node.eventsOf children).flatMap (Event.undeclared g)) ⟨s, ""⟩ := by
  -- without a child the text is empty
  have htext : ∃ text, Node.eventsOf children = textEvents text ∧ e.Encloses text := by
    rw [Element.Holds, hcdata] at hholds
    rcases hholds with rfl | ⟨t, rfl, hencloses⟩
    · refine ⟨"", rfl, by simp, fun before spelling after htext => ?_⟩
      have hlength := congrArg List.length htext
      simp at hlength
    · refine ⟨t, ?_, hencloses⟩
      have hne : t ≠ "" := by
        cases hvalid _ (List.mem_singleton_self _) with
        | text hne => exact hne
      rw [textEvents, if_neg hne]
      rfl
  obtain ⟨text, hevents, hencloses⟩ := htext
  have hquiet : (textEvents text).flatMap (Event.undeclared g) = [] := by
    unfold textEvents
    split
    · rfl
    · rfl
  rw [hevents, hquiet]
  have hverbatim : e.Verbatim text [] :=
    ⟨hencloses.noReturn, Reader.undelimited_of_occurrences hencloses.guarded⟩
  have hpassage : Passage g ⟨s.push e, ""⟩ (textEvents text ++ [.endTag e]) []
      ⟨(s.push e).pop, ""⟩ := .verbatim rfl hcdata rfl hverbatim
  rw [hs.pop_push] at hpassage
  exact hpassage.regular

/-- The content of any other element goes up to its end tag. -/
theorem regular_children (hs : s.Sound g.dtd) (hcdata : e.content ≠ .cdata)
    (hchildren : ∀ child ∈ children, child.Continues g (s.push e)) (hspaced : Spaced children) :
    Regular g ⟨s.push e, ""⟩ (Node.eventsOf children ++ [.endTag e])
      ((Node.eventsOf children).flatMap (Event.undeclared g)) ⟨s, ""⟩ := by
  obtain ⟨text, hregular, htext⟩ := regular_eventsOf hchildren hspaced
    (Document.deliverable_of_empty (d := ⟨s.push e, ""⟩) rfl _) fun _ _ _ => rfl
  have hclosed : Passage g ⟨s.push e, text⟩ [.endTag e] [] ⟨(s.push e).pop, ""⟩ :=
    .closed rfl hcdata htext
  rw [hs.pop_push] at hclosed
  have hall := hregular.trans hclosed.regular
  rwa [List.append_nil] at hall

/-- Where an element has children that are no texts, tags are recognised. -/
theorem Element.Holds.takesMarkup (h : e.Holds children) (hempty : e.content ≠ .empty)
    (hcdata : e.content ≠ .cdata) (hmem : node ∈ children) (hnode : node.isText = false) :
    e.takesMarkup = true := by
  by_cases hrcdata : e.content = .rcdata
  · rw [Element.Holds, hrcdata] at h
    rcases h with rfl | ⟨t, rfl⟩
    · cases hmem
    · rw [List.mem_singleton.1 hmem] at hnode
      cases hnode
  · unfold Element.takesMarkup
    cases hcontent : e.content <;> simp_all [ContentType.isRaw]

/-- The events of an element are regular when those of its content are. -/
theorem continues_element (hs : s.Sound g.dtd) (hmarkup : s.takesMarkup = true)
    (hspelt : g.dtd.Spells e) (hattributes : ∀ a ∈ attributes.items, a.Spelled)
    (hfits : ElementFits s.stack e) (hholds : e.Holds children)
    (hcontent : e.content ≠ .empty → Regular g ⟨s.push e, ""⟩
      (Node.eventsOf children ++ [.endTag e])
      ((Node.eventsOf children).flatMap (Event.undeclared g)) ⟨s, ""⟩) :
    (Node.element e attributes children).Continues g s := by
  intro pending hdeliver _
  obtain ⟨hbegins, hplace⟩ :=
    hfits.begins (d := ⟨s, pending⟩) hs hmarkup hspelt hattributes hdeliver
  refine ⟨?_, Document.deliverable_of_empty rfl _⟩
  have hcauses : (Node.element e attributes children).events.flatMap (Event.undeclared g) =
      undeclaredAttributes g e attributes ++
        (Node.eventsOf children).flatMap (Event.undeclared g) := by
    rw [Node.events, List.flatMap_cons, List.flatMap_append]
    exact congrArg (_ ++ ·) (List.append_nil _)
  rw [hcauses]
  by_cases hempty : e.content = .empty
  · -- an empty element has no children, and its tags are one passage
    have hnone : children = [] := by rwa [Element.Holds, hempty] at hholds
    have hregular := (Passage.empty hbegins hempty).regular
    rw [hplace, List.nil_append] at hregular
    have hquiet : (Node.eventsOf []).flatMap (Event.undeclared g) = [] := rfl
    rw [hnone, hquiet, List.append_nil]
    exact hregular
  · have hopened := (Passage.opened hbegins hempty).regular
    rw [hplace, List.nil_append] at hopened
    exact hopened.trans (hcontent hempty)

/-- The events of a valid node are regular among the elements around it. -/
theorem Node.Valid.continues (h : node.Valid g.dtd ancestors) (hs : s.Sound g.dtd)
    (hstack : s.stack = ancestors) (hcdata : s.content ≠ .cdata)
    (hmarkup : node.isText = false → s.takesMarkup = true) : node.Continues g s := by
  induction h generalizing s with
  | @text _ t hne hfits =>
    intro pending _ hpending
    obtain rfl := hpending rfl
    subst hstack
    exact ⟨(Passage.text (d := ⟨s, ""⟩) rfl hne hcdata).regular, hfits.deliverable hs⟩
  | @element _ e attributes children hspelt hattributes hfits hholds hspaced hvalid ih =>
    subst hstack
    apply continues_element hs (hmarkup rfl) hspelt hattributes hfits hholds
    intro hempty
    by_cases hraw : e.content = .cdata
    · exact regular_verbatim hs hraw hholds hvalid
    · refine regular_children hs hraw (fun child hchild => ?_) hspaced
      exact ih child hchild (hs.push (hmarkup rfl) hspelt hempty) rfl hraw
        (hholds.takesMarkup hempty hraw hchild)

/-- The events of a valid forest are regular. -/
theorem ValidForest.regular {forest : List Node} (h : ValidForest g.dtd forest) :
    ∃ text, Regular g .start (Node.eventsOf forest)
        ((Node.eventsOf forest).flatMap (Event.undeclared g)) ⟨.none, text⟩ ∧
      Document.Deliverable ⟨.none, text⟩ OpenElements.none.content := by
  apply regular_eventsOf (fun node hnode => ?_) h.spaced
    (Document.deliverable_of_empty rfl _) fun _ _ _ => rfl
  exact (h.valid node hnode).continues sound_none rfl (by decide) fun _ => rfl

/-! ## Reading -/

mutual

/-- A node has no space that does not break. -/
theorem Node.space_notMem_events (node : Node) : .characterData " " true ∉ node.events := by
  cases node with
  | text t => simp [events]
  | element e attributes children =>
    have hchildren := space_notMem_eventsOf children
    simpa [events] using hchildren

/-- A forest has no space that does not break. -/
theorem Node.space_notMem_eventsOf (forest : List Node) :
    .characterData " " true ∉ eventsOf forest := by
  cases forest with
  | nil => exact List.not_mem_nil
  | cons node nodes =>
    have hnode := node.space_notMem_events
    have hnodes := space_notMem_eventsOf nodes
    rw [eventsOf, List.mem_append, not_or]
    exact ⟨hnode, hnodes⟩

end

/-- A note with what has to be escaped and what must not be escaped. -/
def note : List Node :=
  [.element ((Element.ofName "D" .modelPcdata).withModel ["P", "X"]) .empty
    [.text "1 < 2\n",
      .element ((Element.ofName "P" .pcdata).withInclusions ["B"])
        (.ofList [⟨"A", "\"&\r\n"⟩]) [.text "\r\n", .element (.ofName "B" .empty) .empty []],
      .element (.ofName "X" .cdata) .empty [.text "A<B&C\n"]]]

end Markup
