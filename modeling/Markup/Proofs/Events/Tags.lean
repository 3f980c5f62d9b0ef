import Markup.Proofs.Admission
import Markup.Proofs.Events.Operations

/-!
# Tags that are delivered

`Tags actions tags problems` says which tags actions deliver and which problems with the place of a
tag they report, whatever text goes with them. Each operation on a document is described by the tags
that it delivers: ending elements gives their end tags from the inside (`tags_closeMany`), and
making room for an element follows the rule of admission (`tags_makeRoom`). The tags that have been
delivered tell which elements are open (`replay_of_regular`).
-/

namespace Markup

/-- Whether an event is a tag. -/
def Event.isTag : Event → Bool
  | .startTag .. | .endTag _ => true
  | _ => false

/-- The tags among events. -/
def tagEvents (events : List Event) : List Event :=
  events.filter Event.isTag

/-- Whether a problem is about the place of a tag. -/
def IssueCause.isMisplacedTag : IssueCause → Bool
  | unexpectedElement .. | unexpectedEndTag _ => true
  | _ => false

/-- The problems with the place of a tag. -/
def misplacedTags (causes : List IssueCause) : List IssueCause :=
  causes.filter IssueCause.isMisplacedTag

/-- The tags of a start tag in the source: an element without content ends where it begins. -/
def startTags (e : Element) (attributes : Attributes) : List Event :=
  if e.content = .empty then [.startTag e attributes, .endTag e] else [.startTag e attributes]

/-- The tags that actions deliver, and the problems that they report with the place of a tag. -/
structure Tags (actions : List Action) (tags : List Event) (problems : List IssueCause) : Prop where
  /-- The tags are delivered in this order. -/
  events : tagEvents (actionEvents actions) = tags
  /-- The problems are reported in this order. -/
  causes : misplacedTags (actionCauses actions) = problems

section

variable {actions more : List Action} {tags others : List Event}
  {problems remaining : List IssueCause}

/-- The tags of two lists of actions. -/
theorem Tags.append (h : Tags actions tags problems) (h' : Tags more others remaining) :
    Tags (actions ++ more) (tags ++ others) (problems ++ remaining) := by
  constructor
  · rw [actionEvents_append, tagEvents, List.filter_append, ← h.events, ← h'.events]
    rfl
  · rw [actionCauses_append, misplacedTags, List.filter_append, ← h.causes, ← h'.causes]
    rfl

/-- Actions without events and without such problems. -/
theorem Tags.quiet (hevents : actionEvents actions = [])
    (hcauses : ∀ cause ∈ actionCauses actions, cause.isMisplacedTag = false) :
    Tags actions [] [] := by
  constructor
  · rw [hevents]
    rfl
  · refine List.filter_eq_nil_iff.2 fun cause hcause => ?_
    rw [hcauses cause hcause]
    exact Bool.false_ne_true

end

namespace Document

variable {d : Document} {dtd : Dtd} {e : Element} {attributes : Attributes}

/-! ## Operations -/

/-- A flush delivers no tag. -/
theorem tags_flushAs (d : Document) (line : Nat) (content : ContentType) (beforeEnd : Bool) :
    Tags (d.flushAs line content beforeEnd).2 [] [] := by
  obtain ⟨delivered, hflush⟩ := d.exists_flushed line content beforeEnd
  constructor
  · rw [hflush.events]
    unfold textEvents
    split <;> rfl
  · refine List.filter_eq_nil_iff.2 fun cause hcause => ?_
    obtain ⟨text, name, rfl⟩ := hflush.causes cause hcause
    exact Bool.false_ne_true

/-- A space that does not break is no tag. -/
theorem tags_space (d : Document) (line : Nat) : Tags (d.space line).2 [] [] := by
  have hflush := d.tags_flushAs line d.elements.content false
  rw [space_eq]
  split
  · exact hflush.append ⟨rfl, rfl⟩
  · exact hflush

/-- An element that opens delivers its start tag. -/
theorem tags_openElement (d : Document) (line : Nat) (e : Element) (attributes : Attributes) :
    Tags (d.openElement line e attributes).2 [.startTag e attributes] [] := by
  rw [openElement_eq]
  exact (d.tags_flushAs line _ false).append ⟨rfl, rfl⟩

/-- An element that closes delivers its end tag. -/
theorem tags_closeCurrent (line : Nat) (he : d.elements.current? = some e) :
    Tags (d.closeCurrent line).2 [.endTag e] [] := by
  rw [closeCurrent_eq line he]
  exact (d.tags_flushAs line _ true).append ⟨rfl, rfl⟩

/-- Elements end from the inside. -/
theorem tags_closeMany {remark : Element → List Action} (hremark : ∀ e, Tags (remark e) [] [])
    (line n : Nat) (d : Document) :
    Tags (closeMany remark line n d).2 ((d.elements.stack.take n).map .endTag) [] := by
  induction n generalizing d with
  | zero => exact ⟨rfl, rfl⟩
  | succ n ih =>
    simp only [closeMany]
    cases hcurrent : d.elements.current? with
    | none =>
      have hstack : d.elements.stack = [] := OpenElements.current?_eq_none.1 hcurrent
      have hrest := ih d
      simp only [hstack, List.take_nil] at hrest ⊢
      simp only [closeCurrent, hcurrent]
      exact hrest
    | some e =>
      have hstack := OpenElements.stack_of_current hcurrent
      have hrest := ih (d.closeCurrent line).1
      rw [hstack, List.take_succ_cons, List.map_cons]
      have hpop : (d.closeCurrent line).1.elements = d.elements.pop := by
        rw [closeCurrent_eq line hcurrent]
      rw [hpop] at hrest
      exact ((hremark e).append (tags_closeCurrent line hcurrent)).append hrest

/-- Ending the elements through the innermost one of a name. -/
theorem tags_closeElement {line n : Nat} {name : Name}
    (h : d.elements.closingsThrough? name = some n) :
    Tags (d.closeElement line name).2 ((d.elements.stack.take n).map .endTag) [] := by
  rw [closeElement, h]
  exact tags_closeMany (fun _ => ⟨rfl, rfl⟩) line n d

/-- An end tag that ends nothing is misplaced. -/
theorem tags_closeElement_of_none {line : Nat} {name : Name}
    (h : d.elements.closingsThrough? name = none) :
    Tags (d.closeElement line name).2 [] [.unexpectedEndTag name] := by
  rw [closeElement, h]
  exact ⟨rfl, rfl⟩

/-- Making room ends the elements beyond the outermost ones that admit the element; without any that
do, the element is a problem and nothing ends. -/
theorem tags_makeRoom (line : Nat) (hcached : d.elements = .ofStack d.elements.stack) :
    (∃ n, OpenElements.LastAdmitting dtd d.elements.stack.reverse e n ∧
        Tags (d.makeRoom dtd line e).2 ((d.elements.stack.reverse.drop n).reverse.map .endTag) []) ∨
      (∀ n ≤ d.elements.stack.length, ¬OpenElements.Admits dtd d.elements.stack.reverse n e) ∧
        Tags (d.makeRoom dtd line e).2 []
          [.unexpectedElement e.name (d.elements.stack.reverse.getLast?.map Element.name)] := by
  unfold makeRoom
  split
  · -- all open elements admit the element, so none ends
    rename_i hadmits
    refine .inl ⟨_, OpenElements.lastAdmitting_of_admits hcached hadmits, ?_⟩
    rw [← List.length_reverse, List.drop_length]
    exact ⟨rfl, rfl⟩
  · rename_i hnot
    rw [Bool.not_eq_true] at hnot
    split
    · -- the fewest elements that have to end leave the most that admit
      rename_i n hn
      refine .inl ⟨_, OpenElements.lastAdmitting_of_closingsFor hcached hnot hn, ?_⟩
      rw [List.drop_reverse, List.reverse_reverse, Nat.sub_sub_self (length_of_closingsFor hn)]
      exact tags_closeMany (fun _ => ⟨rfl, rfl⟩) line n d
    · rename_i hnone
      refine .inr ⟨fun n hn => OpenElements.not_admits_of_closingsFor hcached hnot hnone hn, ?_⟩
      rw [List.getLast?_reverse]
      exact ⟨rfl, rfl⟩

/-- Ending the document is no problem. -/
theorem causes_finish (d : Document) (line : Nat) :
    misplacedTags (actionCauses (d.finish line).2) = [] := by
  have hclosed : Tags (closeMany (fun _ => []) line d.elements.stack.length d).2 _ [] :=
    tags_closeMany (fun _ => ⟨rfl, rfl⟩) line _ d
  unfold finish
  have hflush := (closeMany (fun _ => []) line d.elements.stack.length d).1.tags_flushAs line
    (closeMany (fun _ => []) line d.elements.stack.length d).1.elements.content true
  exact ((hclosed.append hflush).append
    (⟨rfl, rfl⟩ : Tags [.deliver .finished] [] [])).causes

end Document

/-! ## Replaying the tags -/

/-- The open elements after an event, the outermost one first. End tags of elements that are not
declared leave them alone. -/
def replayEvent (d : Dtd) (opened : List Element) : Event → List Element
  | .startTag e _ => opened ++ [e]
  | .endTag e => if d.declares e.name then opened.dropLast else opened
  | _ => opened

/-- The open elements after events from outside all elements. -/
def replay (d : Dtd) (events : List Event) : List Element :=
  events.foldl (replayEvent d) []

variable {g : Grammar} {d d' : Document} {events : List Event} {causes : List IssueCause}

/-- A passage opens and closes the elements that its tags say. -/
theorem Passage.replay (h : Passage g d events causes d') (hd : d.elements.Sound g.dtd) :
    events.foldl (replayEvent g.dtd) d.elements.stack.reverse = d'.elements.stack.reverse := by
  have hcurrent {e : Element} (he : d.elements.current? = some e) :
      g.dtd.declares e.name = true :=
    (hd.spells_of_current he).declares
  have hclose {e : Element} (he : d.elements.current? = some e) :
      replayEvent g.dtd d.elements.stack.reverse (.endTag e) = d.elements.pop.stack.reverse := by
    rw [replayEvent, if_pos (hcurrent he), List.dropLast_reverse]
    rfl
  cases h with
  | text => rfl
  | space => rfl
  | @opened e attributes =>
    show d.elements.stack.reverse ++ [e] = (e :: d.elements.stack).reverse
    rw [List.reverse_cons]
  | @empty e attributes hbegins =>
    show replayEvent g.dtd (d.elements.stack.reverse ++ [e]) (.endTag e) = d.elements.stack.reverse
    rw [replayEvent, if_pos hbegins.spelt.declares, List.dropLast_concat]
  | closed he => exact hclose he
  | verbatim he =>
    rw [List.foldl_append]
    have htext (text : String) : (textEvents text).foldl (replayEvent g.dtd)
        d.elements.stack.reverse = d.elements.stack.reverse := by
      unfold textEvents
      split <;> rfl
    rw [htext]
    exact hclose he
  | @unknown name hrule hdeclared htoken =>
    show replayEvent g.dtd d.elements.stack.reverse (.endTag (.ofName name.text .pcdata)) =
      d.elements.stack.reverse
    -- its name is not declared, so the replay passes over it
    rw [replayEvent, name_ofName htoken, hdeclared]
    rfl

/-- The tags of regular events tell which elements are open after them. -/
theorem replay_of_regular (h : Regular g d events causes d') (hd : d.elements.Sound g.dtd) :
    events.foldl (replayEvent g.dtd) d.elements.stack.reverse = d'.elements.stack.reverse := by
  induction h with
  | refl => rfl
  | step hpassage _ ih => rw [List.foldl_append, hpassage.replay hd, ih (hpassage.sound hd)]

end Markup
