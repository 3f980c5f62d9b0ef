import Markup.Proofs.Reader.Modes

/-!
# A document is delivered as regular events

Every deed leads regularly from the document before it to the document after it (`Deed.keeps`), so
the events of a whole reading are regular (`regular_read`), and those of a reading that gets to the
end of its document end it (`ends_read`).
-/

namespace Markup.Reader

variable {g : Grammar} {s t : State} {actions : List Action} {source : Source}

/-- Raw text that is about to end stands for itself. -/
theorem verbatim_of_withheld {e : Element} (withheld : List Char) (hs : s.Sound g)
    (hplace : Place.Fits s.document.elements (.raw e)) (hcdata : e.content = .cdata)
    (hwithheld : s.mode.withheld? = some (e, withheld)) (hstops : Stops (withheld ++ s.ahead)) :
    e.Verbatim (dropLineEnd s.document.pending) [] := by
  have htoken := isToken_of_raw hs.elements hplace
  exact ((hs.raw e withheld hwithheld hcdata).of_stops htoken hstops stops_nil).dropLineEnd htoken

/-- A deed leads regularly to the document after it. -/
theorem Deed.keeps (h : Deed g s actions t) (hs : s.Sound g) :
    Document.Keeps g s.document actions t.document := by
  cases h with
  | quiet hevents _ helements _ => exact .refl helements hevents
  | room hmode _ _ ht =>
    have hfits := hs.fits hmode
    rw [ht]
    exact Document.keeps_makeRoom _ hs.elements hfits.1 _
  | opened hmode hempty _ ht =>
    have hfits := hs.fits hmode
    rw [ht]
    exact Document.keeps_openElement _ hs.elements hfits.markup hfits.spelt hfits.attributes
      hfits.room hempty
  | empty hmode hempty _ ht =>
    have hfits := hs.fits hmode
    rw [ht]
    exact Document.keeps_emptyElement _ hs.elements hfits.markup hfits.spelt hfits.attributes
      hfits.room hempty
  | closed hmode _ _ ht =>
    have hfits := hs.fits hmode
    rw [ht]
    exact Document.keeps_closeElement _ hs.elements hfits.1 _
  | rawClosed hmode _ ht =>
    have hfits := hs.fits hmode
    rw [ht]
    refine Document.keeps_closeCurrent _ hs.elements hfits.1 fun hcdata => ?_
    refine verbatim_of_withheld ['<'] hs hfits hcdata (congrArg Mode.withheld? hmode) ?_
    exact stops_cons (by decide) (by decide)
  | @space place _ _ _ hmode hspace _ ht =>
    have hfits := hs.fits hmode
    rw [ht]
    refine Document.keeps_space _ (fun hcdata => ?_) (by rw [hspace]; rfl)
    obtain ⟨hplace, hhonours⟩ := hfits
    cases place with
    | content => exact hs.elements.content_ne_cdata hplace hcdata
    | raw e =>
      rw [hs.elements.content_of_current hplace.1] at hcdata
      rw [Place.honoursReferences, hcdata] at hhonours
      cases hhonours
  | unknown hmode hdeclared hrule _ ht =>
    have hfits := hs.fits hmode
    rw [ht]
    exact Document.keeps_unknownEndTag _ hs.elements hfits.1 hrule hdeclared hfits.2

/-- Wherever the reader gets, it gets there regularly. -/
theorem Reaches.keeps (h : Reaches g s actions t) (hs : s.Sound g) :
    Document.Keeps g s.document actions t.document := by
  induction h with
  | refl => exact .refl rfl rfl
  | step hstep _ ih =>
    exact ((deed_of_step hs hstep).keeps hs).trans (ih (sound_of_step hs hstep))

/-- The last step ends the document. -/
theorem ends_of_step (hs : s.Sound g) (h : step g s = (actions, .stopped .finished)) :
    Document.Ends g s.document (actionEvents actions) := by
  have hproceeds := proceeds_step hs
  rw [h] at hproceeds
  obtain ⟨place, line, hmode, hahead, rfl⟩ := hproceeds
  have hfits := hs.fits hmode
  refine Document.ends_finish line hs.elements fun e he hcdata => ?_
  cases place with
  | content => exact absurd hcdata (OpenElements.ne_cdata_of_current hfits he)
  | raw x =>
    obtain rfl : x = e := by
      have hx := hfits.1
      rw [he] at hx
      cases hx
      rfl
    refine verbatim_of_withheld [] hs hfits hcdata (congrArg Mode.withheld? hmode) ?_
    rw [hahead]
    exact stops_nil

/-- A failed read does nothing. -/
theorem actions_of_failed {failure : ReadFailure} (hs : s.Sound g)
    (h : step g s = (actions, .stopped (.failed failure))) : actions = [] := by
  have hproceeds := proceeds_step hs
  rwa [h] at hproceeds

/-- The events of a document that is read to its end are regular and end it. -/
theorem ends_read (h : (read g source).outcome = .finished) :
    Document.Ends g .start (read g source).events := by
  obtain ⟨actions, t, last, outcome, hreach, hstop, hrun⟩ := exists_stop g (.start g source)
  have hstart := sound_start g source
  obtain ⟨causes, hregular⟩ := hreach.keeps hstart
  unfold read at h ⊢
  rw [hrun] at h ⊢
  simp only at h
  subst h
  obtain ⟨body, others, d, hbody, hstack, hdeliverable, hevents⟩ :=
    ends_of_step (hreach.sound hstart) hstop
  refine ⟨_, _, d, hregular.trans hbody, hstack, hdeliverable, ?_⟩
  show actionEvents (actions ++ last) = _
  rw [actionEvents_append, hevents, List.append_assoc]

/-- The events of a document that cannot be read to its end are regular. -/
theorem regular_read {failure : ReadFailure} (h : (read g source).outcome = .failed failure) :
    ∃ causes d, Regular g .start (read g source).events causes d := by
  obtain ⟨actions, t, last, outcome, hreach, hstop, hrun⟩ := exists_stop g (.start g source)
  have hstart := sound_start g source
  obtain ⟨causes, hregular⟩ := hreach.keeps hstart
  unfold read at h ⊢
  rw [hrun] at h ⊢
  simp only at h
  subst h
  refine ⟨causes, t.document.settled, ?_⟩
  show Regular g .start (actionEvents (actions ++ last)) _ _
  rw [actions_of_failed (hreach.sound hstart) hstop, List.append_nil]
  exact hregular

end Markup.Reader
