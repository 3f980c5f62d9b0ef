import Markup.Proofs.Reader.Modes

/-!
# What is kept beside the open elements

An element that begins adds its inclusions and exclusions to those that are kept beside the stack;
when one ends, they are worked out anew. Wherever the reader gets, what is kept is what the stack
says (`OpenElements.InStep`): the content type is that of the innermost element, and the sets are
the unions over all open elements. So the short way of deciding admission, which looks names up as
they are, gives the answer of the walk over the stack, which asks every declaration for a name in
any case (`inStep_of_reaches`).
-/

namespace Markup

/-- A union over a list of elements has the names that one of them has. -/
theorem NameSet.mem_items_foldr_union (names : Element → NameSet) (stack : List Element)
    (n : Name) :
    n ∈ Registry.items (stack.foldr (fun e (s : NameSet) => s.union (names e)) .empty) ↔
      ∃ e ∈ stack, n ∈ (names e).items := by
  have hmem (s : NameSet) : n ∈ s.items ↔ s.has n = true := by
    rw [← contains_items, List.contains_iff_mem]
  simp only [hmem, has_foldr_union, List.any_eq_true]

namespace OpenElements

/-- What is kept beside the stack is what the stack says. -/
structure InStep (s : OpenElements) : Prop where
  /-- The content type is that of the innermost element. -/
  inside : ∀ e, s.current? = some e → s.content = e.content
  /-- Outside all elements there may be elements and text. -/
  outside : s.current? = Option.none → s.content = .modelPcdata
  /-- The inclusions are those of all open elements. -/
  inclusions : ∀ n, n ∈ s.inclusions.items ↔ ∃ x ∈ s.stack, n ∈ x.inclusions.items
  /-- The exclusions are those of all open elements. -/
  exclusions : ∀ n, n ∈ s.exclusions.items ↔ ∃ x ∈ s.stack, n ∈ x.exclusions.items
  /-- The name of an element, as it is, is among the inclusions exactly if an open element includes
  it, in whatever case it is written. -/
  included : ∀ (e : Element) (written : String), written.toUpper = e.name.text →
    s.inclusions.contains e.name.text = s.stack.any (·.includes (.fold written))
  /-- The name of an element, as it is, is among the exclusions exactly if an open element excludes
  it, in whatever case it is written. -/
  excluded : ∀ (e : Element) (written : String), written.toUpper = e.name.text →
    s.exclusions.contains e.name.text = s.stack.any (·.excludes (.fold written))
  /-- An element is admitted right here exactly if the whole stack admits it. -/
  admission : ∀ d e, s.admits d e = admitsIn d s.stack s.stack e

/-- What is kept beside sound open elements is in step with them. -/
theorem Sound.inStep {d : Dtd} {s : OpenElements} (h : s.Sound d) : s.InStep := by
  have hfold {e : Element} {written : String} (hwritten : written.toUpper = e.name.text) :
      Name.fold written = e.name := Name.ext hwritten
  have hinclusions : s.inclusions = (ofStack s.stack).inclusions := congrArg _ h.cached
  have hexclusions : s.exclusions = (ofStack s.stack).exclusions := congrArg _ h.cached
  constructor
  case inside => exact fun _ => h.content_of_current
  case outside => exact h.content_of_none
  case inclusions =>
    rw [hinclusions]
    exact NameSet.mem_items_foldr_union Element.inclusions s.stack
  case exclusions =>
    rw [hexclusions]
    exact NameSet.mem_items_foldr_union Element.exclusions s.stack
  case included =>
    intro e written hwritten
    rw [hfold hwritten, hinclusions]
    exact NameSet.has_foldr_union Element.inclusions s.stack e.name
  case excluded =>
    intro e written hwritten
    rw [hfold hwritten, hexclusions]
    exact NameSet.has_foldr_union Element.exclusions s.stack e.name
  case admission =>
    intro d e
    rw [← admits_ofStack, ← h.cached]

end OpenElements

namespace Reader

/-- Whatever is read by whatever declarations, between two steps of the reader what is kept beside
the open elements is in step with them. Listeners only decide how far the reading goes. -/
theorem inStep_of_reaches {g : Grammar} {source : Source} {actions : List Action} {s : State}
    (h : Reaches g (.start g source) actions s) : s.document.elements.InStep :=
  (h.sound (sound_start g source)).elements.inStep

/-- Documents with notes; the two elements include some of the same names. -/
def annotated : Grammar where
  dtd := ((Dtd.ofRoot "d").addElement
    (((Element.ofName " d " .model).withModel ["p"]).withInclusions ["note", "q"])).addElement
      (((Element.ofName "p" .modelPcdata).withInclusions ["note"]).withExclusions ["Q"])
  dialect := .strict

/-- A state with inclusions and exclusions from two elements. -/
theorem inStep_of_reaches_annotated :
    ∃ actions s, Reaches annotated (.start annotated (.ofText "<d><p>")) actions s ∧
      s.document.elements.stack.map (·.name.text) = ["P", "D"] ∧
      s.document.elements.inclusions.keys = ["NOTE", "Q"] ∧
      s.document.elements.exclusions.keys = ["Q"] ∧ s.document.elements.InStep := by
  have hopen : (stateAfter annotated 8 (.start annotated (.ofText "<d><p>"))).map (fun s =>
      (s.document.elements.stack.map (·.name.text), s.document.elements.inclusions.keys,
        s.document.elements.exclusions.keys)) =
      some (["P", "D"], ["NOTE", "Q"], ["Q"]) := by
    decide +kernel
  obtain ⟨s, hs, hkept⟩ := Option.map_eq_some_iff.1 hopen
  obtain ⟨actions, hreach⟩ := exists_reaches_of_stateAfter hs
  obtain ⟨hstack, hkept⟩ := Prod.mk.inj hkept
  obtain ⟨hinclusions, hexclusions⟩ := Prod.mk.inj hkept
  exact ⟨actions, s, hreach, hstack, hinclusions, hexclusions, inStep_of_reaches hreach⟩

end Reader

end Markup
