import Markup.Proofs.Inference

/-!
# Where elements begin

Every start tag that is delivered begins its element among open elements with room for it
(`startsAmong_read`). There is room for an element even where none of the open elements admits it,
which is a problem of the document. A document type *places* an element if some of the open elements
admit it whatever is open: the root element, and the elements that it includes and does not exclude.
Such an element begins only where it is admitted (`StartsAmong.admits`), and its place is never a
problem (`not_places_of_unexpectedElement`).
-/

namespace Markup

open OpenElements

/-! ## Elements that are always admitted by some -/

/-- Whatever is open, some of the outermost open elements admit the element. -/
def Dtd.Places (d : Dtd) (e : Element) : Prop :=
  ∀ s : OpenElements, s.Sound d → ∃ n ≤ s.stack.length, Admits d s.stack.reverse n e

namespace Dtd

variable {d : Dtd} {e : Element}

/-- The document itself admits the root element. -/
theorem places_of_root (h : e.name = d.root) : d.Places e := fun s _ =>
  ⟨0, Nat.zero_le _, by simp, .inr ⟨rfl, .inl h⟩⟩

/-- An element that the root element includes is admitted inside it, and by the document itself
where the outermost element is another one. -/
theorem places_of_included (h : ∀ root, d.element? d.root = some root →
    root.includes e.name = true ∧ root.excludes e.name = false) : d.Places e := by
  intro s hs
  by_cases hroot : ∃ x, s.stack.reverse[0]? = some x ∧ x.name = d.root
  · obtain ⟨x, hx, hname⟩ := hroot
    have hmem : x ∈ s.stack := List.mem_reverse.1 (List.mem_of_getElem? hx)
    have hdeclared := (hs.spelt x hmem).declared
    rw [hname] at hdeclared
    obtain ⟨hincludes, hexcludes⟩ := h x hdeclared
    have htake : s.stack.reverse.take 1 = [x] := by
      rw [List.take_one, List.head?_eq_getElem?, hx]
      rfl
    refine ⟨1, List.length_pos_of_mem hmem, ?_, .inl ⟨Nat.one_pos, .inr ⟨x, ?_, hincludes⟩⟩⟩
    · rw [htake]
      exact List.forall_mem_singleton.2 hexcludes
    · rw [htake]
      exact List.mem_singleton_self x
  · refine ⟨0, Nat.zero_le _, by simp, .inr ⟨rfl, .inr ?_⟩⟩
    cases hfirst : s.stack.reverse[0]? with
    | none => exact .inl (List.eq_nil_of_length_eq_zero (Nat.le_zero.1 (by simpa using hfirst)))
    | some x => exact .inr ⟨x, rfl, fun hname => hroot ⟨x, hfirst, hname⟩⟩

end Dtd

/-! ## Start tags among regular events -/

/-- An element begins among open elements, listed from the outside, without the end of another. -/
structure StartsAmong (d : Dtd) (opened : List Element) (e : Element) : Prop where
  /-- The open elements are sound. -/
  sound : (ofStack opened.reverse).Sound d
  /-- The element can be named. -/
  spelt : d.Spells e
  /-- There is room for it. -/
  room : (ofStack opened.reverse).HasRoom d e

namespace StartsAmong

variable {d : Dtd} {opened : List Element} {e x : Element}

/-- An element that is always admitted by some is admitted where it begins. -/
theorem admits (h : StartsAmong d opened e) (hplaces : d.Places e) :
    Admits d opened opened.length e := by
  obtain ⟨n, hn, hadmits⟩ := hplaces _ h.sound
  have hadmitted : (ofStack opened.reverse).admits d e = true := by
    rcases h.room with hadmitted | hnone
    · exact hadmitted
    · rw [← Bool.not_eq_false]
      exact fun hnot => not_admits_of_closingsFor rfl hnot hnone hn hadmits
  have hadmits := (admits_iff rfl).1 hadmitted
  simp only [ofStack, List.reverse_reverse, List.length_reverse] at hadmits
  exact hadmits

/-- Open elements are declared. -/
theorem declared (h : StartsAmong d opened e) (hx : x ∈ opened) : x ∈ d.elements.items :=
  (Registry.find?_eq_some (h.sound.spelt x (List.mem_reverse.2 hx)).declared).1

/-- Inside an element that excludes its own name no other of the name begins. -/
theorem name_ne (h : StartsAmong d opened e) (hplaces : d.Places e)
    (hexcludes : e.excludes e.name = true) (hx : x ∈ opened) : x.name ≠ e.name := by
  intro hname
  -- both have the declaration of the name
  have hsame := (h.sound.spelt x (List.mem_reverse.2 hx)).declared
  rw [hname, h.spelt.declared] at hsame
  cases hsame
  have hadmits := (h.admits hplaces).1 e (by rwa [List.take_length])
  rw [hexcludes] at hadmits
  cases hadmits

/-- The root element begins outside all elements if no element may contain it. -/
theorem eq_nil_of_root (h : StartsAmong d opened e) (hroot : e.name = d.root)
    (hnone : ∀ x ∈ d.elements.items, x.accepts d.root = false ∧ x.includes d.root = false) :
    opened = [] := by
  obtain ⟨-, ⟨hpos, ⟨x, hlast, hmodel, hhas⟩ | ⟨x, hmem, hincludes⟩⟩ | ⟨hlength, -⟩⟩ :=
    h.admits (Dtd.places_of_root hroot)
  · have haccepts := (hnone x (h.declared (List.mem_of_getElem? hlast))).1
    rw [Element.accepts, hmodel, ← hroot, hhas] at haccepts
    cases haccepts
  · have hnot := (hnone x (h.declared (List.mem_of_mem_take hmem))).2
    rw [← hroot, hincludes] at hnot
    cases hnot
  · exact List.eq_nil_of_length_eq_zero hlength

end StartsAmong

variable {g : Grammar} {d d' : Document} {events before after : List Event}
  {causes : List IssueCause} {e : Element} {attributes : Attributes}

/-- A start tag is the first event of its passage. -/
theorem Passage.begins (h : Passage g d events causes d')
    (hevents : events = before ++ .startTag e attributes :: after) :
    before = [] ∧ d.Begins g e attributes := by
  have hmem : Event.startTag e attributes ∈ events := by simp [hevents]
  cases h with
  | opened hbegins =>
    cases before with
    | nil =>
      cases hevents
      exact ⟨rfl, hbegins⟩
    | cons first rest => cases rest <;> cases (List.cons.inj hevents).2
  | @empty x _ hbegins =>
    cases before with
    | nil =>
      cases hevents
      exact ⟨rfl, hbegins⟩
    | cons first rest =>
      have hrest : [.endTag x] = rest ++ .startTag e attributes :: after :=
        (List.cons.inj hevents).2
      have htag : .startTag e attributes ∈ [Event.endTag x] := by simp [hrest]
      cases List.mem_singleton.1 htag
  | verbatim =>
    unfold textEvents at hmem
    split at hmem <;> simp at hmem
  | _ => cases List.mem_singleton.1 hmem

/-- A start tag among regular events begins its element among those that are open there. -/
theorem Regular.startsAmong (h : Regular g d events causes d') (hd : d.elements.Sound g.dtd)
    (hevents : events = before ++ .startTag e attributes :: after) :
    StartsAmong g.dtd (before.foldl (replayEvent g.dtd) d.elements.stack.reverse) e := by
  induction h generalizing before with
  | refl => cases before <;> cases hevents
  | @step d d' d'' events more causes others hpassage hrest ih =>
    -- the tag comes after the passage or in it
    have hlater {rest : List Event} (hmore : more = rest ++ .startTag e attributes :: after) :
        StartsAmong g.dtd
          ((events ++ rest).foldl (replayEvent g.dtd) d.elements.stack.reverse) e := by
      rw [List.foldl_append, hpassage.replay hd]
      exact ih (hpassage.sound hd) hmore
    rcases List.append_eq_append_iff.1 hevents with ⟨rest, rfl, hmore⟩ | ⟨rest, hbefore, hstart⟩
    · exact hlater hmore
    · cases rest with
      | nil =>
        rw [List.append_nil] at hbefore
        rw [← hbefore, ← List.append_nil events]
        exact hlater hstart.symm
      | cons first rest =>
        cases (List.cons.inj hstart).1
        obtain ⟨rfl, hbegins⟩ := hpassage.begins hbefore
        refine ⟨?_, hbegins.spelt, ?_⟩
        · rw [List.foldl_nil, List.reverse_reverse, ← hd.cached]
          exact hd
        · rw [List.foldl_nil, List.reverse_reverse, ← hd.cached]
          exact hbegins.room

namespace Reader

variable {source : Source}

/-- A start tag that is delivered begins its element among those that are open there. -/
theorem startsAmong_read (h : (read g source).events = before ++ .startTag e attributes :: after) :
    StartsAmong g.dtd (replay g.dtd before) e := by
  cases houtcome : (read g source).outcome with
  | finished =>
    obtain ⟨body, causes, d, hregular, -, -, hevents⟩ := ends_read houtcome
    rw [hevents] at h
    -- the last event is not the tag
    rcases List.append_eq_append_iff.1 h with ⟨rest, -, hlast⟩ | ⟨rest, hbody, hlast⟩
    · have htag : .startTag e attributes ∈ [Event.finished] := by simp [hlast]
      cases List.mem_singleton.1 htag
    · cases rest with
      | nil => cases (List.cons.inj hlast).1
      | cons first rest =>
        cases (List.cons.inj hlast).1
        exact hregular.startsAmong OpenElements.sound_none hbody
  | failed failure =>
    obtain ⟨causes, d, hregular⟩ := regular_read houtcome
    exact hregular.startsAmong OpenElements.sound_none h

/-- An element that is found misplaced is not always admitted by some. -/
theorem not_places_of_unexpectedElement {issue : Issue} {name : Name} {context : Option Name}
    (h : issue ∈ (read g source).issues) (hcause : issue.cause = .unexpectedElement name context) :
    ∃ e, g.dtd.element? name = some e ∧ e.name = name ∧ ¬g.dtd.Places e := by
  obtain ⟨before, s, hreach, hmem⟩ := exists_step_of_read (Trace.report_mem h)
  have hproblem : .unexpectedElement name context ∈ actionCauses (step g s).1 := by
    rw [← hcause]
    exact List.mem_map_of_mem (List.mem_filterMap.2 ⟨_, hmem, rfl⟩)
  obtain ⟨e, hmeets, hnone⟩ := meets_of_unexpectedElement hreach hproblem
  have hs := hreach.sound (sound_start g source)
  rw [hreach.replay_eq, List.length_reverse] at hnone
  have hplaces : ¬g.dtd.Places e := fun hplaces =>
    have ⟨n, hn, hadmits⟩ := hplaces _ hs.elements
    hnone n hn hadmits
  -- the problem is that of the element whose start tag is met
  obtain ⟨input, hstep⟩ := step_of_meetsStartTag hmeets
  obtain ⟨spelling, -, he, -⟩ := hmeets
  have hname : e.name = name := by
    have hmisplaced :
        .unexpectedElement name context ∈ misplacedTags (actionCauses (step g s).1) :=
      List.mem_filter.2 ⟨hproblem, rfl⟩
    rw [hstep] at hmisplaced
    rcases s.document.tags_makeRoom input.line hs.elements.cached with ⟨n, hlast, -⟩ | ⟨-, hroom⟩
    · exact absurd hlast.admits (hnone n (by simpa using hlast.le))
    · rw [hroom.causes] at hmisplaced
      cases List.mem_singleton.1 hmisplaced
      rfl
  refine ⟨e, ?_, hname, hplaces⟩
  rwa [← hname, Name.ext (Registry.find?_eq_some he).2]

end Reader

end Markup
