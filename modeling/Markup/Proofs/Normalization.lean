import Markup.Proofs.Reader.Delivery
import Markup.Proofs.Rereading.Passages
import Markup.Proofs.Session.Passive

/-!
# Written documents are read again

The markup that is written for a document is read as the same document, so what a document is
normalized to is normalized to itself (`collect_markup`). The proof has two halves that meet at
regular events: reading delivers only regular events (`ends_read`), and regular events are read
again from their markup (`reads_markup`).
-/

namespace Markup

variable {g : Grammar} {source : Source} {events : List Event}

/-- A passage has a space that does not break only where an entity stands for it. -/
theorem Passage.spaceEntity_of_mem {d d' : Document} {causes : List IssueCause}
    (h : Passage g d events causes d') (hmem : .characterData " " true ∈ events) :
    g.dialect.spaceEntity.isSome = true := by
  cases h with
  | space _ _ _ hspace => exact hspace
  | text => cases List.mem_singleton.1 hmem
  | opened => cases List.mem_singleton.1 hmem
  | empty => simp at hmem
  | closed => cases List.mem_singleton.1 hmem
  | verbatim =>
    unfold textEvents at hmem
    split at hmem
    · simp at hmem
    · simp at hmem
  | unknown => cases List.mem_singleton.1 hmem

/-- A space that does not break comes from the entity that stands for it. -/
theorem Regular.spaceEntity_of_mem {d d' : Document} {causes : List IssueCause}
    (h : Regular g d events causes d') (hmem : .characterData " " true ∈ events) :
    g.dialect.spaceEntity.isSome = true := by
  induction h with
  | refl => cases hmem
  | step hpassage _ ih =>
    rcases List.mem_append.1 hmem with hmem | hmem
    · exact hpassage.spaceEntity_of_mem hmem
    · exact ih hmem

/-- The events of a document that is read to its end are read again from their markup. -/
theorem read_markup (hspace : g.dialect.spaceEntity = none ∨ g.dialect.spaceEntity = some "nbsp")
    (h : (Reader.read g source).outcome = .finished)
    (hevents : (Reader.read g source).events = events) :
    (Reader.read g (.ofText (Writer.markup events))).outcome = .finished ∧
      (Reader.read g (.ofText (Writer.markup events))).events = events := by
  obtain ⟨body, causes, d, hregular, hstack, hdeliver, hbody⟩ := Reader.ends_read h
  have hnbsp (hmem : .characterData " " true ∈ body) : g.dialect.spaceEntity = some "nbsp" := by
    have hsome := hregular.spaceEntity_of_mem hmem
    rcases hspace with hnone | hsome'
    · rw [hnone] at hsome
      cases hsome
    · exact hsome'
  obtain ⟨hfinished, hagain, -⟩ := reads_markup hregular hstack hdeliver hnbsp
  rw [← hevents, hbody]
  exact ⟨hfinished, hagain⟩

/-- A parse of the markup of what a parse has delivered delivers the same and succeeds, and
normalizing the markup gives it back. -/
theorem collect_markup (g : Grammar) (source : Source) (events : List Event) (issues : List Issue)
    (hspace : g.dialect.spaceEntity = none ∨ g.dialect.spaceEntity = some "nbsp")
    (h : collect g source = (events, issues, .ok ())) :
    (∃ issues, collect g (.ofText (Writer.markup events)) = (events, issues, .ok ())) ∧
      ∃ issues, normalize g (.ofText (Writer.markup events)) =
        (Writer.markup events, issues, .ok ()) := by
  rw [collect_eq] at h
  simp only [Prod.mk.injEq] at h
  obtain ⟨hevents, -, hresult⟩ := h
  have hfinished : (Reader.read g source).outcome = .finished := by
    cases houtcome : (Reader.read g source).outcome with
    | finished => rfl
    | failed failure =>
      rw [houtcome] at hresult
      cases hresult
  obtain ⟨hagain, hsame⟩ := read_markup hspace hfinished hevents
  rw [collect_eq, normalize_eq, hagain, hsame]
  exact ⟨⟨_, rfl⟩, ⟨_, rfl⟩⟩

/-- Items with raw text and spaces that do not break. -/
def items : Grammar where
  dtd := (((Dtd.ofRoot "L").addElement ((Element.ofName "L" .model).withModel ["I"])).addElement
    ((Element.ofName "I" .modelPcdata).withModel ["X"])).addElement (.ofName "X" .cdata)
  dialect := .html

/-- What is delivered of two items. The end tag of the first is inferred, and so are those after the
end tag of an element that is not declared. -/
def itemEvents : List Event :=
  let list := (Element.ofName "L" .model).withModel ["I"]
  let item := (Element.ofName "I" .modelPcdata).withModel ["X"]
  let raw := Element.ofName "X" .cdata
  [.startTag list .empty, .startTag item .empty, .characterData "1" false, .endTag item,
    .startTag item (.ofList [⟨"A", "2"⟩]), .characterData " " true, .startTag raw .empty,
    .characterData "&lt;\n" false, .endTag raw, .endTag (.ofName "Q" .pcdata), .endTag item,
    .endTag list, .finished]

/-- Items in a text from which tags and quotation marks are left out, and in their markup. -/
theorem collect_markup_items :
    (items.dialect.spaceEntity = some "nbsp" ∧
        collect items (.ofText "<L><I>1\n<I A=2>&nbsp;<X>&lt;\n\n</X></Q>") =
          (itemEvents, [], .ok ())) ∧
      Writer.markup itemEvents =
        "<L><I>1</I><I A=\"2\">&nbsp;<X>&lt;\n\n</X></Q></I></L>" ∧
      (∃ issues, collect items (.ofText (Writer.markup itemEvents)) =
        (itemEvents, issues, .ok ())) ∧
      ∃ issues, normalize items (.ofText (Writer.markup itemEvents)) =
        (Writer.markup itemEvents, issues, .ok ()) := by
  have hread : (fun t : Trace => (t.events, t.issues, t.outcome))
      (Reader.read items (.ofText "<L><I>1\n<I A=2>&nbsp;<X>&lt;\n\n</X></Q>")) =
        (itemEvents, [], .finished) :=
    Reader.shows_of_runWithin (fun t => (t.events, t.issues, t.outcome)) 80 (by decide +kernel)
  simp only [Prod.mk.injEq] at hread
  have hcollect := collect_eq items (.ofText "<L><I>1\n<I A=2>&nbsp;<X>&lt;\n\n</X></Q>")
  rw [hread.1, hread.2.1, hread.2.2] at hcollect
  exact ⟨⟨rfl, hcollect⟩, by decide +kernel, collect_markup _ _ _ _ (.inr rfl) hcollect⟩

end Markup
