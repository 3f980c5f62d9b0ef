import Markup.Proofs.Input.LineEnds
import Markup.Proofs.Input.Operations
import Markup.Proofs.Reader.RawText
import Markup.Proofs.Reader.Traversal

/-!
# Reading raw text

Text inside an element of type CDATA is read as it is, with its line ends unified, up to an end tag
of the element (`traverses_raw`). The proof is by induction on the length of the text: each step of
it reads a part that is not empty (`exists_rawPart`). Where the text holds a `<`, what is withheld
while an end tag may begin there turns out to be text, and is part of the part
(`exists_notMarkup`).
-/

namespace Markup

/-! ## Line ends of a text -/

/-- Characters with all line ends as line feeds. -/
def unifyLines (cs : List Char) : List Char :=
  Source.characters (Source.unifyLineEnds (cs.map .ok))

section

variable {c : Char} {cs rest : List Char}

@[simp] theorem unifyLines_nil : unifyLines [] = [] := rfl

/-- Characters without carriage returns stay as they are. -/
theorem unifyLines_append (h : '\r' ∉ cs) : unifyLines (cs ++ rest) = cs ++ unifyLines rest := by
  unfold unifyLines
  rw [List.map_append, Source.unifyLineEnds_append h, Source.characters_append,
    Source.characters_map_ok]

/-- Text without a carriage return has its line ends unified. -/
theorem unifyLines_of_not_mem (h : '\r' ∉ cs) : unifyLines cs = cs := by
  have hall : unifyLines (cs ++ []) = cs ++ unifyLines [] := unifyLines_append h
  rwa [List.append_nil, unifyLines_nil, List.append_nil] at hall

/-- A carriage return with a line feed after it is one line end. -/
theorem unifyLines_returnFeed : unifyLines ('\r' :: '\n' :: cs) = '\n' :: unifyLines cs := rfl

/-- A carriage return alone is a line end. -/
theorem unifyLines_return (h : cs.head? ≠ some '\n') :
    unifyLines ('\r' :: cs) = '\n' :: unifyLines cs := by
  have hafter : Source.afterReturn (cs.map .ok) = cs.map .ok := by
    refine Source.afterReturn_of_ne fun hfeed => h ?_
    rw [List.head?_map] at hfeed
    cases hcs : cs.head? with
    | none =>
      rw [hcs] at hfeed
      cases hfeed
    | some x =>
      rw [hcs] at hfeed
      cases hfeed
      rfl
  unfold unifyLines
  rw [List.map_cons, Source.unifyLineEnds_return, hafter, Source.characters_ok]

end

namespace Reader

variable {f : Feed} {g : Grammar} {d : Document} {e : Element} {place : Place} {c x : Char}
  {cs text expected : List Char} {seen : String}

/-- A carriage return in text, alone or with a line feed after it, is a line end. -/
theorem exists_return (d : Document) (place : Place) (text : List Char) (hend : cs = [] → f.Ends)
    (hcs : cs.head? ≠ some '\n') :
    ∃ part left, '\r' :: text = part ++ left ∧ part ≠ [] ∧
      unifyLines ('\r' :: text) = ['\n'] ++ unifyLines left ∧
      Traverses f g ⟨.text place, d, '\r' :: text ++ cs⟩ [] []
        ⟨.text place, d.append (String.ofList ['\n']), left ++ cs⟩ := by
  have hreturn : Traverses f g ⟨.text place, d, '\r' :: text ++ cs⟩ [] []
      ⟨.textReturn place, d, text ++ cs⟩ := by
    refine .take_quiet (steady_of_unheld rfl) fun input => ?_
    show stepText _ place (some '\r') = _
    simp only [stepText]
    rw [if_neg (by simp), if_neg (by decide), if_pos trivial]
    rfl
  by_cases hfeed : text.head? = some '\n'
  · obtain ⟨left, rfl⟩ := List.head?_eq_some_iff.1 hfeed
    exact ⟨['\r', '\n'], left, rfl, List.cons_ne_nil _ _, unifyLines_returnFeed,
      hreturn.after (.take_quiet (steady_of_unheld rfl) fun _ => rfl)⟩
  · refine ⟨['\r'], text, rfl, List.cons_ne_nil _ _, unifyLines_return hfeed, hreturn.after ?_⟩
    have hnext : (text ++ cs).head? ≠ some '\n' := by
      cases text with
      | nil => exact hcs
      | cons y text => exact hfeed
    refine .leave_quiet (steady_of_unheld rfl)
      (fun hnil => hend (List.append_eq_nil_iff.1 hnil).2) fun input => ?_
    show stepTextReturn _ place (text ++ cs).head? = _
    unfold stepTextReturn
    rw [if_neg hnext]
    rfl

/-! ## What may be an end tag -/

/-- A `<` in raw text may begin an end tag. -/
theorem traverses_rawMarkup :
    Traverses f g ⟨.text (.raw e), d, '<' :: cs⟩ [] [] ⟨.rawMarkup e, d, cs⟩ := by
  refine .take_quiet (steady_of_unheld rfl) fun input => ?_
  show stepText _ (.raw e) (some '<') = _
  simp only [stepText]
  rw [if_neg (by simp), if_pos trivial]
  rfl

/-- With `</` the name of the element is looked for. -/
theorem traverses_rawEndTagOpen :
    Traverses f g ⟨.text (.raw e), d, '<' :: '/' :: cs⟩ [] []
      ⟨.rawEndTag e e.name.text.toList "</", d, cs⟩ :=
  traverses_rawMarkup.after (.take_quiet (steady_of_unheld rfl) fun _ => rfl)

/-- The next letter of the name of the element, in any case. -/
theorem traverses_rawLetter (hc : c.toUpper = x.toUpper) :
    Traverses f g ⟨.rawEndTag e (x :: expected) seen, d, c :: cs⟩ [] []
      ⟨.rawEndTag e expected (seen.push c), d, cs⟩ := by
  refine .take_quiet (steady_of_unheld rfl) fun input => ?_
  show stepRawEndTag _ e (x :: expected) seen (some c) = _
  simp only [stepRawEndTag]
  rw [if_pos hc]
  rfl

/-- Where the next letter does not come, what has been withheld is text. -/
theorem traverses_otherLetter (hend : cs = [] → f.Ends)
    (hcs : ∀ c, cs.head? = some c → c.toUpper ≠ x.toUpper) :
    Traverses f g ⟨.rawEndTag e (x :: expected) seen, d, cs⟩ [] []
      ⟨.text (.raw e), d.append seen, cs⟩ := by
  refine .leave_quiet (steady_of_unheld rfl) hend fun input => ?_
  show stepRawEndTag _ e (x :: expected) seen cs.head? = _
  cases hnext : cs.head? with
  | none => rfl
  | some c =>
    simp only [stepRawEndTag]
    rw [if_neg (hcs c hnext)]
    rfl

/-- The name of the element goes on with its end tag, in any case. -/
theorem traverses_rawEndTagName {spelling : List Char}
    (hspelling : spelling.map Char.toUpper = expected.map Char.toUpper) (seen : String) :
    Traverses f g ⟨.rawEndTag e expected seen, d, spelling ++ cs⟩ [] []
      ⟨.rawEndTag e [] (seen ++ String.ofList spelling), d, cs⟩ := by
  induction expected generalizing spelling seen with
  | nil =>
    obtain rfl := List.map_eq_nil_iff.1 hspelling
    rw [String.ofList_nil, String.append_empty]
    exact .refl _
  | cons x expected ih =>
    obtain ⟨c, spelling, rfl, hc, hrest⟩ := List.map_eq_cons_iff.1 hspelling
    rw [String.ofList_cons, ← String.append_assoc, String.append_singleton]
    exact (traverses_rawLetter hc).after (ih hrest _)

/-- A text that does not begin with the rest of the name is text after all: what has been withheld
and the letters that still went on with the name. -/
theorem exists_notEndTag (hend : cs = [] → f.Ends) (hcs : ∀ c, cs.head? = some c → c = '<')
    (hexpected : ∀ x ∈ expected, isNameChar x = true)
    (htext : beginsWithName expected text = false) (seen : String) :
    ∃ more left, text = more ++ left ∧ (∀ x ∈ more, isNameChar x = true) ∧
      Traverses f g ⟨.rawEndTag e expected seen, d, text ++ cs⟩ [] []
        ⟨.text (.raw e), d.append (seen ++ String.ofList more), left ++ cs⟩ := by
  induction expected generalizing seen text with
  | nil =>
    cases text with
    | nil => cases htext
    | cons c text =>
      -- the name is complete, but a name character goes on with it
      have hc : isNameChar c = true := by simpa [beginsWithName] using htext
      refine ⟨[], c :: text, rfl, List.forall_mem_nil _, ?_⟩
      rw [String.ofList_nil, String.append_empty]
      refine .leave_quiet (steady_of_unheld rfl) Feed.ends_of_cons fun input => ?_
      show stepRawEndTag _ e [] seen (some c) = _
      simp only [stepRawEndTag]
      rw [if_pos (by simpa using hc)]
      rfl
  | cons x expected ih =>
    have hx := hexpected x List.mem_cons_self
    have hother {left : List Char} (hleft : left = [] → cs = [] → f.Ends)
        (hnext : ∀ c, (left ++ cs).head? = some c → c.toUpper ≠ x.toUpper) :
        Traverses f g ⟨.rawEndTag e (x :: expected) seen, d, left ++ cs⟩ [] []
          ⟨.text (.raw e), d.append (seen ++ String.ofList []), left ++ cs⟩ := by
      rw [String.ofList_nil, String.append_empty]
      refine traverses_otherLetter (fun hnil => ?_) hnext
      obtain ⟨hleftNil, hcsNil⟩ := List.append_eq_nil_iff.1 hnil
      exact hleft hleftNil hcsNil
    cases text with
    | nil =>
      -- what comes after the text is no name character
      refine ⟨[], [], rfl, List.forall_mem_nil _, hother (fun _ => hend) fun c hc heq => ?_⟩
      rw [hcs c hc] at heq
      refine ne_of_isNameChar (d := '<') ?_ (by decide) heq.symm
      rw [isNameChar_toUpper]
      exact hx
    | cons c text =>
      by_cases hc : c.toUpper = x.toUpper
      · have htext' : beginsWithName expected text = false := by
          simpa [beginsWithName, hc] using htext
        obtain ⟨more, left, rfl, hmore, htraverses⟩ :=
          ih (fun y hy => hexpected y (List.mem_cons_of_mem _ hy)) htext' (seen.push c)
        refine ⟨c :: more, left, rfl, ?_, ?_⟩
        · intro y hy
          rcases List.mem_cons.1 hy with rfl | hy
          · rw [← isNameChar_toUpper, hc, isNameChar_toUpper]
            exact hx
          · exact hmore y hy
        · rw [String.ofList_cons, ← String.append_assoc, String.append_singleton]
          exact (traverses_rawLetter hc).after htraverses
      · refine ⟨[], c :: text, rfl, List.forall_mem_nil _,
          hother (fun hnil => absurd hnil (List.cons_ne_nil c text)) fun y hy => ?_⟩
        rwa [← Option.some.inj hy]

/-- A `<` in raw text that begins no end tag is text, with what has been withheld after it. -/
theorem exists_notMarkup (hname : ∀ x ∈ e.name.text.toList, isNameChar x = true)
    (hend : cs = [] → f.Ends) (hcs : ∀ c, cs.head? = some c → c = '<')
    (htext : beginsEndTag e.name.text.toList ('<' :: text) = false) :
    ∃ more left, text = more ++ left ∧ '\r' ∉ more ∧
      Traverses f g ⟨.text (.raw e), d, '<' :: (text ++ cs)⟩ [] []
        ⟨.text (.raw e), d.append (String.ofList ('<' :: more)), left ++ cs⟩ := by
  by_cases hslash : text.head? = some '/'
  · obtain ⟨text, rfl⟩ := List.head?_eq_some_iff.1 hslash
    have htext' : beginsWithName e.name.text.toList text = false := by
      simpa [beginsEndTag] using htext
    obtain ⟨more, left, rfl, hmore, htraverses⟩ :=
      exists_notEndTag (f := f) (g := g) (d := d) (e := e) hend hcs hname htext' "</"
    have hseen : String.ofList ('<' :: '/' :: more) = "</" ++ String.ofList more := by
      apply String.toList_injective
      simp
    refine ⟨'/' :: more, left, rfl, fun hmem => ?_, ?_⟩
    · rcases List.mem_cons.1 hmem with heq | hmem
      · cases heq
      · exact absurd (hmore _ hmem) (by decide)
    · rw [hseen]
      exact traverses_rawEndTagOpen.after htraverses
  · refine ⟨[], text, rfl, List.not_mem_nil, traverses_rawMarkup.after ?_⟩
    refine .leave_quiet (steady_of_unheld rfl)
      (fun hnil => hend (List.append_eq_nil_iff.1 hnil).2) fun input => ?_
    have hnext : (text ++ cs).head? ≠ some '/' := by
      cases text with
      | nil => exact fun h => absurd (hcs _ h) (by decide)
      | cons c text => exact hslash
    show stepRawMarkup _ e (text ++ cs).head? = _
    unfold stepRawMarkup
    rw [if_neg hnext]
    rfl

/-! ## The whole text -/

/-- A part of raw text is read as text, with its line end unified. -/
theorem exists_rawPart (htoken : isToken e.name.text = true) (hcdata : e.content = .cdata)
    (hend : cs = [] → f.Ends) (hcs : ∀ c, cs.head? = some c → c = '<')
    (htext : beginsEndTag e.name.text.toList (c :: text) = false) :
    ∃ part out left, c :: text = part ++ left ∧ part ≠ [] ∧
      unifyLines (c :: text) = out ++ unifyLines left ∧
      Traverses f g ⟨.text (.raw e), d, c :: text ++ cs⟩ [] []
        ⟨.text (.raw e), d.append (String.ofList out), left ++ cs⟩ := by
  have hname : ∀ x ∈ e.name.text.toList, isNameChar x = true := fun _ =>
    isNameChar_of_mem_token htoken
  by_cases hreturn : c = '\r'
  · subst hreturn
    obtain ⟨part, left, hparts, hne, hout, htraverses⟩ :=
      exists_return (f := f) (g := g) d (.raw e) text hend fun h => absurd (hcs _ h) (by decide)
    exact ⟨part, _, left, hparts, hne, hout, htraverses⟩
  by_cases hmarkup : c = '<'
  · subst hmarkup
    obtain ⟨more, left, rfl, hmore, htraverses⟩ :=
      exists_notMarkup (f := f) (g := g) (d := d) hname hend hcs htext
    have hunified : unifyLines ('<' :: more ++ left) = '<' :: more ++ unifyLines left :=
      unifyLines_append fun hmem =>
        (List.mem_cons.1 hmem).elim (fun h => absurd h (by decide)) hmore
    exact ⟨'<' :: more, '<' :: more, left, rfl, List.cons_ne_nil _ _, hunified, htraverses⟩
  · -- any other character is text by itself
    have hunified : unifyLines ([c] ++ text) = [c] ++ unifyLines text :=
      unifyLines_append fun hmem => hreturn (List.mem_singleton.1 hmem).symm
    refine ⟨[c], [c], text, rfl, List.cons_ne_nil _ _, hunified,
      traverses_text (fun _ => ?_) hmarkup hreturn⟩
    rw [Place.honoursReferences, hcdata]
    rfl

/-- Raw text in which no end tag begins is read as it is, with its line ends unified, before a `<`
or at the end of the input. -/
theorem traverses_raw (htoken : isToken e.name.text = true) (hcdata : e.content = .cdata)
    (hend : cs = [] → f.Ends) (hcs : ∀ c, cs.head? = some c → c = '<')
    (hundelimited : Undelimited e.name.text.toList text []) :
    Traverses f g ⟨.text (.raw e), d, text ++ cs⟩ [] []
      ⟨.text (.raw e), d.append (String.ofList (unifyLines text)), cs⟩ := by
  generalize hlength : text.length = n
  induction n using Nat.strongRecOn generalizing text d with
  | _ n ih =>
    subst hlength
    cases text with
    | nil =>
      rw [unifyLines_nil, String.ofList_nil, Document.append_empty]
      exact .refl _
    | cons c text =>
      have hfirst := hundelimited.1
      rw [List.append_nil] at hfirst
      obtain ⟨part, out, left, hparts, hne, hout, htraverses⟩ :=
        exists_rawPart (f := f) (g := g) (d := d) htoken hcdata hend hcs hfirst
      have hshorter : left.length < (c :: text).length := by
        rw [hparts, List.length_append]
        have hpos := List.length_pos_iff.2 hne
        omega
      rw [hparts] at hundelimited
      have hleft := ih left.length hshorter (d := d.append (String.ofList out))
        (undelimited_append.1 hundelimited).2 rfl
      rw [Document.append_append, ← String.ofList_append, ← hout] at hleft
      exact htraverses.after hleft

/-! ## The end tag -/

/-- The end tag of an element with raw content ends it, in whatever case its name is spelt. -/
theorem traverses_rawEndTag {spelling : List Char} {content : String}
    (hspelling : spelling.map Char.toUpper = e.name.text.toList.map Char.toUpper)
    (he : d.elements.current? = some e) (hcontent : dropLineEnd d.pending = content)
    (hdeliver : Document.Deliverable { d with pending := content } d.elements.content) :
    Traverses f g ⟨.text (.raw e), d, '<' :: '/' :: (spelling ++ '>' :: cs)⟩
      (textEvents content ++ [.endTag e]) [] ⟨.text .content, ⟨d.elements.pop, ""⟩, cs⟩ := by
  have hname : Traverses f g ⟨.text (.raw e), d, '<' :: '/' :: (spelling ++ '>' :: cs)⟩ [] []
      ⟨.rawEndTag e [] ("</" ++ String.ofList spelling), d, '>' :: cs⟩ :=
    traverses_rawEndTagOpen.after (traverses_rawEndTagName hspelling "</")
  have hrest : Traverses f g
      ⟨.rawEndTag e [] ("</" ++ String.ofList spelling), d, '>' :: cs⟩ [] []
      ⟨.rawEndTagRest e, d, '>' :: cs⟩ :=
    .leave_quiet (steady_of_unheld rfl) Feed.ends_of_cons fun _ => rfl
  refine (hname.after hrest).after (.take (steady_of_unheld rfl) fun input => ?_)
  obtain ⟨hevents, hcauses⟩ :=
    d.closeCurrent_of_deliverable input.consume.line he hcontent hdeliver
  refine ⟨(d.closeCurrent input.consume.line).2, ?_, hevents, hcauses⟩
  show State.change _ _ (d.closeCurrent input.consume.line) = _
  rw [Document.closeCurrent_eq _ he]
  rfl

end Reader

end Markup
