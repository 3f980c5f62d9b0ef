import Markup.Html.Dtd
import Markup.Proofs.Placement
import Markup.Proofs.Session.Interruption

/-!
# Anchors do not nest

`HTML` includes `A`, `FONT` and `CENTER`, and the document type places all four of them: whatever is
open, some of the open elements admit them. So none of them is ever misplaced, no anchor begins
inside another, which would exclude it, and `HTML` begins outside all elements, since no element
may contain it (`anchored_of_parse`).
-/

namespace Markup

namespace Html

/-- The elements that are admitted anywhere but where they are excluded, and the root element. -/
def ubiquitous : List String := ["A", "FONT", "CENTER", "HTML"]

/-! ## What the declarations say -/

/-- The root element includes the others and excludes none of them, no element may contain the root
element, and an anchor excludes anchors. -/
theorem declared_ubiquitous : ∀ x ∈ dtd.elements.items,
    (x.name = dtd.root → ∀ name ∈ ["A", "FONT", "CENTER"],
      x.includes (.fold name) = true ∧ x.excludes (.fold name) = false) ∧
    (x.accepts dtd.root = false ∧ x.includes dtd.root = false) ∧
    (x.name = .fold "A" → x.excludes x.name = true) := by
  decide +kernel

/-- The document type places the ubiquitous elements. -/
theorem places_of_ubiquitous {e : Element} (h : e.name.text ∈ ubiquitous) : dtd.Places e := by
  have hname : e.name = .fold e.name.text := (Name.fold_text _).symm
  by_cases hroot : e.name.text = "HTML"
  · refine Dtd.places_of_root ?_
    rw [hname, hroot]
    decide +kernel
  · refine Dtd.places_of_included fun root hdeclared => ?_
    obtain ⟨hmem, hkey⟩ := Registry.find?_eq_some hdeclared
    rw [hname]
    refine (declared_ubiquitous root hmem).1 (Name.ext hkey) _ ?_
    simpa [ubiquitous, hroot] using h

/-! ## Documents -/

/-- Events in which no anchor begins inside an anchor and `HTML` begins outside all elements. -/
structure Anchored (events : List Event) : Prop where
  /-- No anchor is open where an anchor begins. -/
  anchor : ∀ before e attributes after, events = before ++ .startTag e attributes :: after →
    e.name = .fold "A" → ∀ x ∈ replay dtd before, x.name ≠ .fold "A"
  /-- Nothing is open where the root element begins. -/
  root : ∀ before e attributes after, events = before ++ .startTag e attributes :: after →
    e.name = .fold "HTML" → replay dtd before = []

/-- Whatever the dialect, the events of a document are anchored. -/
theorem anchored_read {g : Grammar} (hdtd : g.dtd = dtd) (source : Source) :
    Anchored (Reader.read g source).events := by
  have hstarts {before e attributes after}
      (h : (Reader.read g source).events = before ++ .startTag e attributes :: after) :
      StartsAmong dtd (replay dtd before) e := by
    have hstarts := Reader.startsAmong_read h
    rwa [hdtd] at hstarts
  refine ⟨fun before e attributes after h hname x hx => ?_,
    fun before e attributes after h hname => ?_⟩
  · have hplaces : dtd.Places e := places_of_ubiquitous (by rw [hname]; decide +kernel)
    have hmem := (Registry.find?_eq_some (hstarts h).spelt.declared).1
    rw [← hname]
    exact (hstarts h).name_ne hplaces ((declared_ubiquitous e hmem).2.2 hname) hx
  · refine (hstarts h).eq_nil_of_root ?_ fun x hx => (declared_ubiquitous x hx).2.1
    rw [hname]
    decide +kernel

/-- A part from the start of anchored events is anchored. -/
theorem Anchored.mono {events more : List Event} (h : Anchored more) (hpart : events <+: more) :
    Anchored events := by
  obtain ⟨rest, rfl⟩ := hpart
  constructor
  · rintro before e attributes after rfl
    exact h.anchor before e attributes (after ++ rest) (by simp)
  · rintro before e attributes after rfl
    exact h.root before e attributes (after ++ rest) (by simp)

end Html

open Html

/-- In the events that a listener hears of a parse no anchor begins inside an anchor and `HTML`
begins outside all elements, whether the parse succeeds or not, and no issue is recorded about the
place of one of the elements that are admitted anywhere. -/
theorem anchored_of_parse {α : Type} [Listener α] (s : Session (Recorder α)) (source : Source)
    (hdtd : s.grammar.dtd = Html.dtd) :
    List.Forall₂ (Recorder.Hears Anchored) s.listeners (s.parse source).1.listeners ∧
      ∃ recorded, (s.parse source).1.issues = s.issues ++ recorded ∧
        ∀ issue ∈ recorded, ∀ name context, issue.cause = .unexpectedElement name context →
          name.text ∉ ubiquitous := by
  constructor
  · obtain ⟨hpart, -⟩ := Session.hears_performTrace { s with log := s.log.clear }
      (Reader.read s.grammar source)
    exact Recorder.Hears.imp (fun heard hheard => (anchored_read hdtd source).mono hheard) hpart
  · obtain ⟨recorded, hrecorded, hpart, -⟩ := Session.issues_performAll
      { s with log := s.log.clear } (Reader.read s.grammar source).actions
    rw [← Session.performTrace_fst] at hrecorded
    refine ⟨recorded, hrecorded, fun issue hissue name context hcause hname => ?_⟩
    obtain ⟨e, -, rfl, hplaces⟩ := Reader.not_places_of_unexpectedElement
      (hpart.subset hissue) hcause
    rw [hdtd] at hplaces
    exact hplaces (places_of_ubiquitous hname)

/-- A reader of pages. -/
def pages : Session (Recorder Collector) :=
  .start ⟨Html.dtd, .html⟩ [⟨.empty, []⟩] false

theorem anchored_of_parse_table :
    pages.grammar.dtd = Html.dtd ∧
      List.Forall₂ (Recorder.Hears Anchored) pages.listeners
        (pages.parse (.ofText "<TR><A><TD><A></TR><HTML>")).1.listeners ∧
      ∃ recorded, (pages.parse (.ofText "<TR><A><TD><A></TR><HTML>")).1.issues =
          pages.issues ++ recorded ∧
        ∀ issue ∈ recorded, ∀ name context, issue.cause = .unexpectedElement name context →
          name.text ∉ ubiquitous :=
  ⟨rfl, anchored_of_parse pages (.ofText "<TR><A><TD><A></TR><HTML>") rfl⟩

end Markup
