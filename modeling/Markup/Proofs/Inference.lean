import Markup.Proofs.Reader.Delivery

/-!
# Tags are inferred by the declarations

A start tag ends the open elements beyond the outermost ones that admit its element
(`StartTagRule`), and an end tag ends the elements through the innermost one of its name
(`EndTagRule`). Both are said of the open elements that the tags delivered so far tell
(`replay`), and hold at every tag of a document that is read to its end.
-/

namespace Markup

/-! ## Rules -/

/-- What a start tag does among open elements, listed from the outside: if some of the outermost
ones admit the element, those beyond the most that do end from the inside and the element begins;
otherwise none ends, and the place of the element is a problem. -/
structure StartTagRule (d : Dtd) (opened : List Element) (e : Element) (attributes : Attributes)
    (tags : List Event) (problems : List IssueCause) : Prop where
  /-- The element is admitted somewhere. -/
  admitted : ∀ n, OpenElements.LastAdmitting d opened e n →
    tags = (opened.drop n).reverse.map .endTag ++ startTags e attributes ∧ problems = []
  /-- The element is admitted nowhere. -/
  misplaced : (∀ n ≤ opened.length, ¬OpenElements.Admits d opened n e) →
    tags = startTags e attributes ∧
      problems = [.unexpectedElement e.name (opened.getLast?.map Element.name)]

/-- What an end tag does among open elements, listed from the outside: the innermost element of its
name ends after those inside it; without one, none ends and the tag is a problem. -/
structure EndTagRule (opened : List Element) (name : Name) (tags : List Event)
    (problems : List IssueCause) : Prop where
  /-- An element of the name is open. -/
  matched : ∀ outer x inner, opened = outer ++ x :: inner → x.name = name →
    (∀ y ∈ inner, y.name ≠ name) → tags = (x :: inner).reverse.map .endTag ∧ problems = []
  /-- No element of the name is open. -/
  unmatched : (∀ x ∈ opened, x.name ≠ name) → tags = [] ∧ problems = [.unexpectedEndTag name]

/-- An end tag of an element follows its rule. -/
theorem endTagRule_closeElement (d : Document) (line : Nat) (name : Name) :
    ∃ tags problems, Tags (d.closeElement line name).2 tags problems ∧
      EndTagRule d.elements.stack.reverse name tags problems := by
  cases hclosings : d.elements.closingsThrough? name with
  | none =>
    refine ⟨[], _, Document.tags_closeElement_of_none hclosings, ?_, fun _ => ⟨rfl, rfl⟩⟩
    intro outer x inner hstack hx
    unfold OpenElements.closingsThrough? at hclosings
    rw [Option.map_eq_none_iff, List.findIdx?_eq_none_iff] at hclosings
    have hmem : x ∈ d.elements.stack := by
      rw [← List.mem_reverse, hstack]
      simp
    have hne := hclosings x hmem
    simp [hx] at hne
  | some n =>
    refine ⟨_, [], Document.tags_closeElement hclosings, ?_, ?_⟩
    · intro outer x inner hstack hx hinner
      -- the innermost element of the name is the first one on the stack
      have hstack' : d.elements.stack = inner.reverse ++ x :: outer.reverse := by
        have hreverse := congrArg List.reverse hstack
        simpa using hreverse
      have hindex : d.elements.stack.findIdx? (·.name == name) = some inner.length := by
        rw [List.findIdx?_eq_some_iff_getElem]
        refine ⟨by simp [hstack'], ?_, fun j hj => ?_⟩
        · simp [hstack', hx]
        · have hj' : j < inner.reverse.length := by simpa using hj
          simp only [hstack', List.getElem_append_left hj', beq_iff_eq]
          exact hinner _ (List.mem_reverse.1 (List.getElem_mem hj'))
      unfold OpenElements.closingsThrough? at hclosings
      rw [hindex, Option.map_some, Option.some.injEq] at hclosings
      subst hclosings
      have htake : d.elements.stack.take (inner.length + 1) = (x :: inner).reverse := by
        rw [hstack', List.reverse_cons, ← List.singleton_append (l := outer.reverse),
          ← List.append_assoc]
        exact List.take_left' (by simp)
      rw [htake]
      exact ⟨rfl, rfl⟩
    · intro hnone
      unfold OpenElements.closingsThrough? at hclosings
      rw [Option.map_eq_some_iff] at hclosings
      obtain ⟨i, hi, -⟩ := hclosings
      obtain ⟨hlt, hname, -⟩ := List.findIdx?_eq_some_iff_getElem.1 hi
      refine absurd (beq_iff_eq.1 hname) (hnone _ ?_)
      rw [List.mem_reverse]
      exact List.getElem_mem hlt

namespace Reader

variable {g : Grammar} {s t u : State} {actions : List Action} {e : Element}

/-! ## Meeting a tag -/

/-- The name that is being read is complete: the document ends, or no name character follows. -/
def State.EndsName (s : State) : Prop :=
  s.input.upcoming = [] ∨ ∃ c rest, s.input.upcoming = .ok c :: rest ∧ isNameChar c = false

/-- The name of the start tag of a declared element has been read. -/
def State.MeetsStartTag (g : Grammar) (s : State) (e : Element) : Prop :=
  ∃ name, s.mode = .startTagName name ∧ g.dtd.element? (.fold name) = some e ∧ s.EndsName

/-- The name of the end tag of a declared element has been read, outside raw text. -/
def State.MeetsEndTag (g : Grammar) (s : State) (e : Element) : Prop :=
  ∃ name, s.mode = .endTagName name ∧ g.dtd.element? (.fold name) = some e ∧ s.EndsName

/-- A look at the input where a name ends. -/
theorem peek_of_endsName (h : s.EndsName) :
    ∃ c? input, (s.input.hold s.mode.isHeld).peek = (.ok c?, input) ∧
      c?.any isNameChar = false := by
  rcases h with hnil | ⟨c, rest, hcons, hc⟩
  · obtain ⟨input, hpeek, -⟩ := Input.peek_of_upcoming_nil
      (i := s.input.hold s.mode.isHeld) (by rw [Input.upcoming_hold, hnil])
    exact ⟨none, input, hpeek, rfl⟩
  · obtain ⟨input, hpeek, -⟩ := Input.peek_of_upcoming_cons
      (i := s.input.hold s.mode.isHeld) (by rw [Input.upcoming_hold, hcons])
    exact ⟨some c, input, hpeek, by simpa using hc⟩

/-- The step at the end of the name of a start tag makes room for the element. -/
theorem step_of_meetsStartTag (h : s.MeetsStartTag g e) :
    ∃ input, step g s = ((s.document.makeRoom g.dtd input.line e).2,
      .running ⟨input, .attributes ⟨e, .empty⟩, (s.document.makeRoom g.dtd input.line e).1⟩) := by
  obtain ⟨name, hmode, he, hends⟩ := h
  obtain ⟨c?, input, hpeek, hc⟩ := peek_of_endsName hends
  refine ⟨input, ?_⟩
  unfold step
  rw [hpeek]
  simp only [stepOn, hmode, stepStartTagName]
  cases c? with
  | none =>
    simp only [endStartTagName, he]
    rfl
  | some c =>
    have hc' : isNameChar c = false := by simpa using hc
    simp only [hc', Bool.false_eq_true, if_false, endStartTagName, he]
    rfl

/-- The step at the end of the name of an end tag. -/
theorem step_of_meetsEndTag (h : s.MeetsEndTag g e) :
    ∃ name input, g.dtd.element? name = some e ∧
      step g s = ([], .running ⟨input, .endTagRest name, s.document⟩) := by
  obtain ⟨name, hmode, he, hends⟩ := h
  obtain ⟨c?, input, hpeek, hc⟩ := peek_of_endsName hends
  refine ⟨.fold name, input, he, ?_⟩
  unfold step
  rw [hpeek]
  simp only [stepOn, hmode, stepEndTagName]
  cases c? with
  | none => rfl
  | some c =>
    have hc' : isNameChar c = false := by simpa using hc
    simp only [hc', Bool.false_eq_true, if_false]
    rfl

/-! ## Reading a tag to its end -/

/-- A start tag that has been begun is read to its end before anything else is delivered. -/
theorem Reaches.exists_opened (h : Reaches g s actions u) (hs : s.Sound g)
    (he : s.mode.element? = some e) (hu : u.mode.element? = none) :
    ∃ first t attributes place, Reaches g s first t ∧ t.mode = .text place ∧
      Tags first (startTags e attributes) [] := by
  induction h with
  | refl =>
    rw [he] at hu
    cases hu
  | @step s t u actions more hstep hrest ih =>
    -- a quiet step goes on in the tag, and only the end of the tag leaves it
    cases deed_of_step hs hstep with
    | quiet hevents hcauses _ helement =>
      obtain ⟨first, v, attributes, place, hreach, hplace, htags⟩ :=
        ih (sound_of_step hs hstep) (helement.trans he) hu
      exact ⟨actions ++ first, v, attributes, place, .step hstep hreach, hplace,
        (Tags.quiet hevents hcauses).append htags⟩
    | @opened tag line place _ hmode hempty hplace =>
      obtain rfl : tag.element = e := by
        rw [hmode] at he
        exact Option.some.inj he
      refine ⟨_, t, tag.attributes, place, .single hstep, hplace, ?_⟩
      rw [startTags, if_neg hempty]
      exact Document.tags_openElement ..
    | @empty tag line _ hmode hempty hplace =>
      obtain rfl : tag.element = e := by
        rw [hmode] at he
        exact Option.some.inj he
      refine ⟨_, t, tag.attributes, .content, .single hstep, hplace, ?_⟩
      rw [startTags, if_pos hempty]
      exact (Document.tags_openElement ..).append (Document.tags_closeCurrent _ rfl)
    -- every other deed is done in a mode that reads no start tag
    | room hmode =>
      rw [hmode] at he
      cases he
    | closed hmode =>
      rw [hmode] at he
      cases he
    | rawClosed hmode =>
      rw [hmode] at he
      cases he
    | space hmode =>
      rw [hmode] at he
      cases he
    | unknown hmode =>
      rw [hmode] at he
      cases he

/-- A step in the rest of the end tag of a declared element goes on in it or ends it. -/
theorem step_endTagRest {name : Name} {progress : Progress} (hmode : s.mode = .endTagRest name)
    (hdeclared : g.dtd.declares name = true) (h : step g s = (actions, progress)) :
    (∃ input, actions = [] ∧ progress = .running ⟨input, .endTagRest name, s.document⟩) ∨
      (∃ input, actions = (s.document.closeElement input.line name).2 ∧
        progress =
          .running ⟨input, .text .content, (s.document.closeElement input.line name).1⟩) ∨
      ∃ failure, progress = .stopped (.failed failure) := by
  unfold step at h
  split at h
  · cases h
    exact .inr (.inr ⟨_, rfl⟩)
  · rename_i c? input hpeek
    simp only [stepOn, hmode, stepTagRest, endEndTag, hdeclared, if_true] at h
    split at h
    · split at h
      · cases h
        exact .inr (.inl ⟨input.consume, rfl, rfl⟩)
      · split at h
        · cases h
          exact .inr (.inl ⟨input, rfl, rfl⟩)
        · cases h
          exact .inl ⟨input.consume, rfl, rfl⟩
    · cases h
      exact .inr (.inl ⟨input, rfl, rfl⟩)

/-- An end tag whose name has been read is read to its end before anything is delivered. -/
theorem Reaches.exists_closed {name : Name} {place : Place} (h : Reaches g s actions u)
    (hmode : s.mode = .endTagRest name) (hdeclared : g.dtd.declares name = true)
    (hu : u.mode = .text place) :
    ∃ first t line, Reaches g s first t ∧ t.mode = .text .content ∧
      first = (s.document.closeElement line name).2 := by
  induction h with
  | refl =>
    rw [hmode] at hu
    cases hu
  | @step s t u actions more hstep hrest ih =>
    rcases step_endTagRest hmode hdeclared hstep with
      ⟨input, rfl, ht⟩ | ⟨input, rfl, ht⟩ | ⟨failure, ht⟩
    · cases ht
      obtain ⟨first, v, line, hreach, hv, rfl⟩ := ih rfl hu
      exact ⟨_, v, line, .step hstep hreach, hv, rfl⟩
    · cases ht
      exact ⟨_, _, input.line, .single hstep, rfl, rfl⟩
    · cases ht

/-! ## Documents that are read to their end -/

variable {source : Source} {before : List Action}

/-- The open elements are those that the tags delivered so far tell. -/
theorem Reaches.replay_eq (h : Reaches g (.start g source) before s) :
    replay g.dtd (actionEvents before) = s.document.elements.stack.reverse := by
  obtain ⟨causes, hregular⟩ := h.keeps (sound_start g source)
  exact replay_of_regular hregular OpenElements.sound_none

/-- From every state of a reading that gets to its end, the reader gets to the end, in text. -/
theorem exists_text_of_finished (hfinished : (read g source).outcome = .finished)
    (h : Reaches g (.start g source) before s) :
    ∃ actions u place, Reaches g s actions u ∧ u.mode = .text place := by
  obtain ⟨actions, u, last, outcome, hreach, hstop, hrun⟩ := exists_stop g s
  have hu := hreach.sound (h.sound (sound_start g source))
  unfold read at hfinished
  rw [h.run_eq, hrun] at hfinished
  simp only [Trace.prepend] at hfinished
  subst hfinished
  -- a document ends only where text is read
  have hproceeds := proceeds_step hu
  rw [hstop] at hproceeds
  obtain ⟨place, line, hmode, -⟩ := hproceeds
  exact ⟨actions, u, place, hreach, hmode⟩

/-- A first step is the first step of every way that gets anywhere else. -/
theorem Reaches.tail {more : List Action} (h : Reaches g s more u)
    (hstep : Reader.step g s = (actions, .running t)) (hne : s.mode ≠ u.mode) :
    ∃ rest, Reaches g t rest u := by
  cases h with
  | refl => exact absurd rfl hne
  | step hstep' hrest =>
    rw [hstep] at hstep'
    cases hstep'
    exact ⟨_, hrest⟩

/-- From a start tag that is met, the reader goes on to text, and the tags on the way follow the
rule. -/
theorem startTagRule_of_meets (hfinished : (read g source).outcome = .finished)
    (h : Reaches g (.start g source) before s) (hmeets : s.MeetsStartTag g e) :
    ∃ actions t attributes place, Reaches g s actions t ∧ t.mode = .text place ∧
      StartTagRule g.dtd (replay g.dtd (actionEvents before)) e attributes
        (tagEvents (actionEvents actions)) (misplacedTags (actionCauses actions)) := by
  have hs := h.sound (sound_start g source)
  obtain ⟨input, hstep⟩ := step_of_meetsStartTag hmeets
  obtain ⟨name, hmode, -⟩ := hmeets
  obtain ⟨more, u, place, hreach, hu⟩ := exists_text_of_finished hfinished h
  have hne : s.mode ≠ u.mode := by
    rw [hmode, hu]
    intro h
    cases h
  obtain ⟨rest, hrest⟩ := hreach.tail hstep hne
  obtain ⟨first, t, attributes, place', hfirst, ht, htags⟩ :=
    hrest.exists_opened (sound_of_step hs hstep) rfl (by rw [hu]; rfl)
  refine ⟨_, t, attributes, place', .step hstep hfirst, ht, ?_⟩
  -- the tags are those that made room, then those of the element itself
  rw [h.replay_eq]
  rcases s.document.tags_makeRoom input.line hs.elements.cached with
    ⟨n, hlast, hroom⟩ | ⟨hnone, hroom⟩
  · have hall := hroom.append htags
    rw [hall.events, hall.causes]
    refine ⟨fun m hm => ?_, fun hnot => absurd hlast.admits (hnot n hlast.le)⟩
    rw [hm.unique hlast]
    exact ⟨rfl, rfl⟩
  · have hall := hroom.append htags
    rw [hall.events, hall.causes]
    refine ⟨fun m hm => absurd hm.admits (hnone m ?_), fun _ => ⟨rfl, rfl⟩⟩
    rw [← List.length_reverse]
    exact hm.le

/-- From an end tag that is met, the reader goes on to content, and the tags on the way follow the
rule. -/
theorem endTagRule_of_meets (hfinished : (read g source).outcome = .finished)
    (h : Reaches g (.start g source) before s) (hmeets : s.MeetsEndTag g e) :
    ∃ actions t, Reaches g s actions t ∧ t.mode = .text .content ∧
      EndTagRule (replay g.dtd (actionEvents before)) e.name
        (tagEvents (actionEvents actions)) (misplacedTags (actionCauses actions)) := by
  obtain ⟨name, input, he, hstep⟩ := step_of_meetsEndTag hmeets
  obtain rfl : e.name = name := Name.ext (Registry.find?_eq_some he).2
  obtain ⟨written, hmode, -⟩ := hmeets
  obtain ⟨more, u, place, hreach, hu⟩ := exists_text_of_finished hfinished h
  have hne : s.mode ≠ u.mode := by
    rw [hmode, hu]
    intro h
    cases h
  have hdeclared : g.dtd.declares e.name = true := by
    show (g.dtd.element? e.name).isSome = true
    rw [he]
    rfl
  obtain ⟨rest, hrest⟩ := hreach.tail hstep hne
  obtain ⟨first, t, line, hfirst, ht, rfl⟩ := hrest.exists_closed rfl hdeclared hu
  refine ⟨_, t, .step hstep hfirst, ht, ?_⟩
  rw [h.replay_eq, List.nil_append]
  obtain ⟨tags, problems, htags, hrule⟩ := endTagRule_closeElement s.document line e.name
  rw [htags.events, htags.causes]
  exact hrule

/-! ## Misplaced elements -/

/-- A name that goes on is no problem yet. -/
theorem step_of_not_endsName {name : String} (hmode : s.mode = .startTagName name)
    (h : ¬s.EndsName) : (step g s).1 = [] := by
  have hspec := (s.input.hold s.mode.isHeld).peek_spec
  unfold step
  split at hspec
  · exact absurd (.inl hspec.1) h
  · rename_i c input hpeek
    rw [hpeek]
    have hc : isNameChar c = true := by
      rw [← Bool.not_eq_false]
      exact fun hc => h (.inr ⟨c, _, hspec.1, hc⟩)
    simp only [stepOn, hmode, stepStartTagName, hc, if_true]
    rfl
  · rename_i failure input hpeek
    rw [hpeek]

/-- An element is found misplaced only where its start tag is met and nothing admits it. -/
theorem meets_of_unexpectedElement {name : Name} {context : Option Name}
    (h : Reaches g (.start g source) before s)
    (hcause : .unexpectedElement name context ∈ actionCauses (step g s).1) :
    ∃ e, s.MeetsStartTag g e ∧
      ∀ n ≤ (replay g.dtd (actionEvents before)).length,
        ¬OpenElements.Admits g.dtd (replay g.dtd (actionEvents before)) n e := by
  have hs := h.sound (sound_start g source)
  have hmisplaced : .unexpectedElement name context ∈ misplacedTags (actionCauses (step g s).1) :=
    List.mem_filter.2 ⟨hcause, rfl⟩
  -- so every deed without a misplaced tag is out of the question
  have hnot {tags : List Event} (htags : Tags (step g s).1 tags []) : False := by
    rw [htags.causes] at hmisplaced
    cases hmisplaced
  have hproceeds := proceeds_step hs
  rcases hstep : step g s with ⟨actions, progress⟩
  rw [hstep] at hproceeds hnot hmisplaced
  cases progress with
  | stopped outcome =>
    cases outcome with
    | finished =>
      obtain ⟨place, line, -, -, rfl⟩ := hproceeds
      exact (hnot ⟨rfl, s.document.causes_finish line⟩).elim
    | failed failure =>
      obtain rfl : actions = [] := hproceeds
      exact (hnot ⟨rfl, rfl⟩).elim
  | running t =>
    cases hproceeds.1 with
    | quiet hevents hcauses => exact (hnot (Tags.quiet hevents hcauses)).elim
    | @room name' e line _ hmode he =>
      have hends : s.EndsName := by
        apply Classical.byContradiction
        intro hends
        have hquiet := step_of_not_endsName (g := g) hmode hends
        rw [hquiet] at hcause
        cases hcause
      refine ⟨e, ⟨name', hmode, he, hends⟩, ?_⟩
      rw [h.replay_eq, List.length_reverse]
      rcases s.document.tags_makeRoom line hs.elements.cached with
        ⟨n, hlast, hroom⟩ | ⟨hnone, hroom⟩
      · exact (hnot hroom).elim
      · exact hnone
    | opened => exact (hnot (Document.tags_openElement ..)).elim
    | empty =>
      exact (hnot ((Document.tags_openElement ..).append (Document.tags_closeCurrent _ rfl))).elim
    -- an end tag that ends nothing is misplaced itself, but it is no element
    | @closed name' line =>
      cases hclosings : s.document.elements.closingsThrough? name' with
      | some n => exact (hnot (Document.tags_closeElement hclosings)).elim
      | none =>
        rw [(Document.tags_closeElement_of_none hclosings).causes] at hmisplaced
        cases List.mem_singleton.1 hmisplaced
    | rawClosed hmode =>
      have hfits := hs.fits hmode
      exact (hnot (Document.tags_closeCurrent _ hfits.1)).elim
    | space => exact (hnot (Document.tags_space ..)).elim
    | unknown => exact (hnot ((Document.tags_flushAs ..).append ⟨rfl, rfl⟩)).elim

/-- What the declarations say about the tags of a document. -/
structure TagsFollow (g : Grammar) (source : Source) : Prop where
  /-- A start tag that is met follows its rule among the elements that are open there. -/
  startTags : ∀ before s e, Reaches g (.start g source) before s → s.MeetsStartTag g e →
    ∃ actions t attributes place, Reaches g s actions t ∧ t.mode = .text place ∧
      StartTagRule g.dtd (replay g.dtd (actionEvents before)) e attributes
        (tagEvents (actionEvents actions)) (misplacedTags (actionCauses actions))
  /-- An end tag that is met follows its rule among the elements that are open there. -/
  endTags : ∀ before s e, Reaches g (.start g source) before s → s.MeetsEndTag g e →
    ∃ actions t, Reaches g s actions t ∧ t.mode = .text .content ∧
      EndTagRule (replay g.dtd (actionEvents before)) e.name
        (tagEvents (actionEvents actions)) (misplacedTags (actionCauses actions))
  /-- A step finds an element misplaced only at a start tag that nothing admits. -/
  misplaced : ∀ before s name context, Reaches g (.start g source) before s →
    .unexpectedElement name context ∈ actionCauses (step g s).1 →
    ∃ e, s.MeetsStartTag g e ∧
      ∀ n ≤ (replay g.dtd (actionEvents before)).length,
        ¬OpenElements.Admits g.dtd (replay g.dtd (actionEvents before)) n e

/-- The tags of a document that is read to its end are what the declarations say. -/
theorem tagsFollow_of_finished (g : Grammar) (source : Source)
    (hfinished : (read g source).outcome = .finished) : TagsFollow g source := by
  refine ⟨fun before s e h hmeets => ?_, fun before s e h hmeets => ?_,
    fun before s name context h hcause => ?_⟩
  · exact startTagRule_of_meets hfinished h hmeets
  · exact endTagRule_of_meets hfinished h hmeets
  · exact meets_of_unexpectedElement h hcause

/-- Documents of paragraphs, whose end tags may be left out. -/
def paragraphs : Grammar where
  dtd := ((Dtd.ofRoot "D").addElement ((Element.ofName "D" .model).withModel ["P"])).addElement
    (.ofName "P" .pcdata)
  dialect := .strict

/-- Two paragraphs whose end tags are left out: the next start tag ends the first, the end tag of
the document the second. -/
theorem tagsFollow_paragraphs :
    ((read paragraphs (.ofText "<D><P><P></D>")).outcome = .finished ∧
        (read paragraphs (.ofText "<D><P><P></D>")).events =
          [.startTag ((Element.ofName "D" .model).withModel ["P"]) .empty,
            .startTag (.ofName "P" .pcdata) .empty, .endTag (.ofName "P" .pcdata),
            .startTag (.ofName "P" .pcdata) .empty, .endTag (.ofName "P" .pcdata),
            .endTag ((Element.ofName "D" .model).withModel ["P"]), .finished]) ∧
      TagsFollow paragraphs (.ofText "<D><P><P></D>") := by
  have houtcome : (read paragraphs (.ofText "<D><P><P></D>")).outcome = .finished := by
    apply shows_of_runWithin (n := 40)
    decide +kernel
  refine ⟨⟨houtcome, ?_⟩, tagsFollow_of_finished _ _ houtcome⟩
  apply shows_of_runWithin (n := 40)
  decide +kernel

end Reader

end Markup
