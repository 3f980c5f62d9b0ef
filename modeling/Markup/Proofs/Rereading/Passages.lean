import Markup.Proofs.Rereading.EndTags

/-!
# Reading what was written for regular events

`Rereads g d events causes d'` says that the writer, after all events up to the document `d`, writes
the events as markup that the reader reads from `d` to `d'`, finding problems with these causes on
the way. The text that is pending counts as delivered on both sides: the writer has written it, and
the reader delivers it with the next tag. This holds of every passage (`Passage.rereads`), so of all
regular events (`Regular.rereads`), and a whole document is delivered again (`reads_markup`).
-/

namespace Markup

open Reader

/-- The writer after the events of a document, with what it has written. -/
def writerAt (d : Document) (output : String) : Writer :=
  ⟨output, d.elements.content == .cdata, endsLine d.pending⟩

/-- Events are written as markup that is read as the same events. -/
def Rereads (g : Grammar) (d : Document) (events : List Event) (causes : List IssueCause)
    (d' : Document) : Prop :=
  ∃ markup delivered,
    (∀ output, events.foldl Writer.write (writerAt d output) = writerAt d' (output ++ markup)) ∧
    (∀ cs, Reads g (between d (markup.toList ++ cs)) delivered causes (between d' cs)) ∧
    textEvents d.pending ++ events = delivered ++ textEvents d'.pending

variable {g : Grammar} {d d' d'' : Document} {events more : List Event}
  {causes others : List IssueCause} {e : Element} {attributes : Attributes}

namespace Rereads

/-- No events are read again from no text. -/
theorem refl (d : Document) : Rereads g d [] [] d := by
  refine ⟨"", [], fun output => ?_, fun cs => .refl _, List.append_nil _⟩
  rw [String.append_empty]
  rfl

/-- Passages are read again one after the other. -/
theorem trans (h : Rereads g d events causes d') (h' : Rereads g d' more others d'') :
    Rereads g d (events ++ more) (causes ++ others) d'' := by
  obtain ⟨markup, delivered, hwrite, hread, hevents⟩ := h
  obtain ⟨markup', delivered', hwrite', hread', hevents'⟩ := h'
  refine ⟨markup ++ markup', delivered ++ delivered', fun output => ?_, fun cs => ?_, ?_⟩
  · rw [List.foldl_append, hwrite, hwrite', String.append_assoc]
  · rw [String.toList_append, List.append_assoc]
    exact (hread _).trans (hread' cs)
  · rw [← List.append_assoc, hevents, List.append_assoc, hevents', List.append_assoc]

end Rereads

/-! ## The writer -/

/-- Where tags are recognised, the writer escapes text. -/
theorem raw_eq_false (hd : d.elements.Sound g.dtd) (hmarkup : d.elements.takesMarkup = true) :
    (d.elements.content == .cdata) = false := by
  simpa using hd.content_ne_cdata hmarkup

/-- An end tag is written after a line end, if one is pending. -/
theorem write_endTag {name : Name} {content : ContentType} {output : String} {raw : Bool}
    {text : String} (hname : e.name = name) (hcontent : e.content = content)
    (hempty : content ≠ .empty) :
    Writer.write ⟨output, raw, endsLine text⟩ (.endTag e) =
      ⟨output ++ ((if endsLine text then "\n" else "") ++ ("</" ++ name.text ++ ">")), false,
        false⟩ := by
  show Writer.endTag _ e = _
  unfold Writer.endTag Writer.settleLineEnd
  rw [hname, hcontent, if_neg hempty]
  cases endsLine text with
  | true => simp only [if_true, String.append_assoc]
  | false => simp only [Bool.false_eq_true, if_false, String.empty_append, String.append_assoc]

/-- A start tag is written with all its attributes. -/
theorem write_startTag (output : String) (raw line : Bool) (e : Element)
    (attributes : Attributes) :
    Writer.write ⟨output, raw, line⟩ (.startTag e attributes) =
      ⟨output ++ ("<" ++ e.name.text ++
        String.join (attributes.items.map Writer.attributeMarkup) ++ ">"),
        e.content == .cdata, false⟩ := by
  show Writer.startTag _ e attributes = _
  unfold Writer.startTag
  simp only [String.append_assoc]

/-! ## Passages -/

/-- Where text is not written as it is, references are recognised. -/
theorem honoursReferences_placeOf (hd : d.elements.Sound g.dtd)
    (h : d.elements.content ≠ .cdata) : (placeOf d.elements).honoursReferences = true := by
  unfold placeOf
  split
  · rename_i e he
    rw [hd.content_of_current he] at h
    split
    · rename_i hraw
      cases hcontent : e.content <;> simp_all [ContentType.isRaw, Place.honoursReferences]
    · rfl
  · rfl

/-- Text is read again as text. -/
theorem rereads_text {text : String} (hd : d.elements.Sound g.dtd) (hpending : d.pending = "")
    (htext : text ≠ "") (hcontent : d.elements.content ≠ .cdata) :
    Rereads g d [.characterData text false] [] { d with pending := text } := by
  refine ⟨Writer.escape Writer.escapeInText text, [], fun output => ?_, fun cs => ?_, ?_⟩
  · have hraw : (d.elements.content == .cdata) = false := by simpa using hcontent
    show Writer.characterData _ text false = _
    unfold Writer.characterData writerAt
    simp only [hraw]
    rfl
  · have hreads := reads_escape (g := g)
      (fun pending cs => ⟨.text (placeOf d.elements), { d with pending }, cs⟩)
      (fun pending c cs => reads_escapeInText (honoursReferences_placeOf hd hcontent)) "" text cs
    rw [String.empty_append, ← hpending] at hreads
    exact hreads
  · rw [hpending, textEvents, textEvents, if_pos rfl, if_neg htext]

/-- The reference to the space that does not break. -/
theorem reads_space (hplace : (placeOf d.elements).honoursReferences = true) (cs : List Char) :
    Reads g (between d ("&nbsp;".toList ++ cs)) [] []
      ⟨.entityName (.text (placeOf d.elements)) "nbsp", d, ';' :: cs⟩ := by
  have htoken : isToken "nbsp" = true := by decide
  exact reads_iff_traverses.2
    (traverses_entityName (.text (placeOf d.elements)) hplace (fun _ => rfl) htoken)

/-- The space entity is read again as its space. -/
theorem rereads_space (hd : d.elements.Sound g.dtd) (hcontent : d.elements.content ≠ .cdata)
    (hpermits : (d.elements.content.permitsText || d.elements.stack.isEmpty) = true)
    (hdeliver : d.Deliverable d.elements.content)
    (hspace : g.dialect.spaceEntity = some "nbsp") :
    Rereads g d [.characterData " " true] [] d.settled := by
  refine ⟨"&nbsp;", textEvents d.pending ++ [.characterData " " true], fun output => rfl,
    fun cs => ?_, (List.append_nil _).symm⟩
  have hend : Reads g ⟨.entityName (.text (placeOf d.elements)) "nbsp", d, ';' :: cs⟩
      (textEvents d.pending ++ [.characterData " " true]) [] (between d.settled cs) := by
    apply Reads.take
    intro input
    obtain ⟨hevents, hcauses⟩ := d.flushAs_of_deliverable false input.consume.line rfl hdeliver
    refine ⟨(d.space input.consume.line).2, ?_, ?_, ?_⟩
    · show endTextEntity g _ (placeOf d.elements) "nbsp" = _
      unfold endTextEntity
      rw [if_pos hspace]
      show State.change _ _ (d.space input.consume.line) = _
      rw [Document.space_eq, if_pos hpermits]
      rfl
    · rw [Document.space_eq, if_pos hpermits, Document.flush, actionEvents_append, hevents]
      rfl
    · rw [Document.space_eq, if_pos hpermits, Document.flush, actionCauses_append, hcauses]
      rfl
  exact (reads_space (honoursReferences_placeOf hd hcontent) cs).after hend

/-- A start tag is read again as itself, with the issues that it caused. -/
theorem rereads_opened (hbegins : d.Begins g e attributes) (hempty : e.content ≠ .empty) :
    Rereads g d [.startTag e attributes]
      (misplacement g d.elements e ++ undeclaredAttributes g e attributes)
      ⟨d.elements.push e, ""⟩ :=
  ⟨_, _, fun output => write_startTag output _ _ e attributes,
    fun _ => reads_startTag hbegins hempty, (List.append_nil _).symm⟩

/-- The start tag of an empty element is read again with the end tag that it brings. -/
theorem rereads_empty (hd : d.elements.Sound g.dtd) (hbegins : d.Begins g e attributes)
    (hempty : e.content = .empty) :
    Rereads g d [.startTag e attributes, .endTag e]
      (misplacement g d.elements e ++ undeclaredAttributes g e attributes) d.settled := by
  refine ⟨_, _, fun output => ?_, fun _ => reads_emptyElement hd hbegins hempty,
    (List.append_nil _).symm⟩
  rw [List.foldl_cons, writerAt, write_startTag]
  show Writer.endTag _ e = writerAt d.settled _
  rw [Writer.endTag, if_pos hempty, writerAt, Document.elements_settled,
    raw_eq_false hd hbegins.markup]
  rfl

/-- The end tag of the innermost element is read again as itself. -/
theorem rereads_closed (hd : d.elements.Sound g.dtd) (he : d.elements.current? = some e)
    (hdeliver : d.Deliverable d.elements.content) :
    Rereads g d [.endTag e] [] ⟨d.elements.pop, ""⟩ := by
  have hmem : e ∈ d.elements.stack := List.mem_of_mem_head? he
  refine ⟨(if endsLine d.pending then "\n" else "") ++ ("</" ++ e.name.text ++ ">"),
    textEvents d.pending ++ [.endTag e], fun output => ?_, fun cs => ?_, (List.append_nil _).symm⟩
  · rw [List.foldl_cons, writerAt, write_endTag rfl rfl (hd.nonempty e hmem), writerAt,
      raw_eq_false hd.pop hd.takesMarkup_pop]
    rfl
  · have hend : Reads g
        (between { d with pending := endTwice d.pending }
          (("</" ++ e.name.text ++ ">").toList ++ cs))
        (textEvents d.pending ++ [.endTag e]) [] (between ⟨d.elements.pop, ""⟩ cs) := by
      unfold between
      rw [placeOf_of_takesMarkup hd.takesMarkup_pop]
      cases hplace : placeOf d.elements with
      | content =>
        exact reads_endTag (hd.spelt e hmem) he (dropLineEnd_endTwice _) hdeliver
      | raw x =>
        -- the place of raw text is the innermost element
        have hx : x = e := by
          unfold placeOf at hplace
          rw [he] at hplace
          simp only at hplace
          split at hplace
          · cases hplace
            rfl
          · cases hplace
        rw [hx]
        exact reads_rawEndTag he (dropLineEnd_endTwice _) hdeliver
    rw [String.toList_append, List.append_assoc]
    exact (reads_lineEnd d _).after hend

/-- Text in raw content is written as it is. -/
theorem write_textEvents (hcontent : d.elements.content = .cdata) (hpending : d.pending = "")
    (text output : String) :
    (textEvents text).foldl Writer.write (writerAt d output) =
      ⟨output ++ text, true, endsLine text⟩ := by
  have hraw : (d.elements.content == .cdata) = true := by simpa using hcontent
  unfold textEvents writerAt
  rw [hraw, hpending]
  by_cases htext : text = ""
  · rw [if_pos htext, htext, String.append_empty]
    rfl
  · rw [if_neg htext]
    rfl

/-- Raw text is read again as it stands, up to the end tag of its element. -/
theorem rereads_verbatim {text : String} (hd : d.elements.Sound g.dtd)
    (he : d.elements.current? = some e) (hcdata : e.content = .cdata) (hpending : d.pending = "")
    (hverbatim : e.Verbatim text []) :
    Rereads g d (textEvents text ++ [.endTag e]) [] ⟨d.elements.pop, ""⟩ := by
  have hmem : e ∈ d.elements.stack := List.mem_of_mem_head? he
  have htoken := (hd.spelt e hmem).token
  have hcontent : d.elements.content = .cdata := by rw [hd.content_of_current he, hcdata]
  have hempty : e.content ≠ .empty := hd.nonempty e hmem
  have hplace : placeOf d.elements = .raw e := by
    unfold placeOf
    rw [he]
    simp only [hcdata]
    rfl
  refine ⟨endTwice text ++ ("</" ++ e.name.text ++ ">"), textEvents text ++ [.endTag e],
    fun output => ?_, fun cs => ?_, ?_⟩
  · rw [List.foldl_append, write_textEvents hcontent hpending, List.foldl_cons,
      write_endTag rfl rfl hempty, writerAt, raw_eq_false hd.pop hd.takesMarkup_pop]
    unfold endTwice
    cases endsLine text with
    | true => simp [String.append_assoc, endsLine]
    | false => simp [String.append_assoc, endsLine]
  · have htwice : e.Verbatim (endTwice text) [] := hverbatim.endTwice htoken
    have hdeliver : Document.Deliverable { d with pending := text } d.elements.content := by
      apply Document.deliverable_of_current (d := { d with pending := text }) he
      rw [hcontent]
      rfl
    have hend : Reads g
        ⟨.text (.raw e), { d with pending := endTwice text },
          ("</" ++ e.name.text ++ ">").toList ++ cs⟩
        (textEvents text ++ [.endTag e]) [] (between ⟨d.elements.pop, ""⟩ cs) := by
      unfold between
      rw [placeOf_of_takesMarkup hd.takesMarkup_pop]
      exact reads_rawEndTag he (dropLineEnd_endTwice _) hdeliver
    have hraw : Reads g
        ⟨.text (.raw e), d,
          (endTwice text).toList ++ '<' :: '/' :: (e.name.text.toList ++ '>' :: cs)⟩ [] []
        ⟨.text (.raw e), d.append (String.ofList (endTwice text).toList),
          '<' :: '/' :: (e.name.text.toList ++ '>' :: cs)⟩ :=
      reads_raw htoken hcdata htwice.noReturn htwice.undelimited
    rw [String.ofList_toList, Document.append, hpending, String.empty_append,
      ← toList_endTag] at hraw
    rw [between, hplace, String.toList_append, List.append_assoc]
    exact hraw.after hend
  · rw [hpending]
    exact (List.append_nil _).symm

/-- An end tag of no declared element is read again as itself, where such tags are kept. -/
theorem rereads_unknown {name : Name} (hd : d.elements.Sound g.dtd)
    (hrule : g.dialect.unknownEndTags = .synthesize) (hname : g.dtd.declares name = false)
    (htoken : isToken name.text = true) (hmarkup : d.elements.takesMarkup = true)
    (hdeliver : d.Deliverable .pcdata) :
    Rereads g d [.endTag (.ofName name.text .pcdata)] [] d.settled := by
  refine ⟨(if endsLine d.pending then "\n" else "") ++ ("</" ++ name.text ++ ">"),
    textEvents d.pending ++ [.endTag (.ofName name.text .pcdata)], fun output => ?_, fun cs => ?_,
    (List.append_nil _).symm⟩
  · rw [List.foldl_cons, writerAt, write_endTag (name_ofName htoken _)
      (rfl : _ = ContentType.pcdata) (by decide), writerAt, Document.elements_settled,
      raw_eq_false hd hmarkup]
    rfl
  · have hend : Reads g
        (between { d with pending := endTwice d.pending }
          (("</" ++ name.text ++ ">").toList ++ cs))
        (textEvents d.pending ++ [.endTag (.ofName name.text .pcdata)]) []
        (between d.settled cs) := by
      unfold between
      rw [Document.elements_settled, placeOf_of_takesMarkup hmarkup]
      exact reads_unknownEndTag hrule hname htoken (dropLineEnd_endTwice _) hdeliver
    rw [String.toList_append, List.append_assoc]
    exact (reads_lineEnd d _).after hend

/-- The events of a passage are read again. -/
theorem Passage.rereads (h : Passage g d events causes d') (hd : d.elements.Sound g.dtd)
    (hspace : .characterData " " true ∈ events → g.dialect.spaceEntity = some "nbsp") :
    Rereads g d events causes d' := by
  cases h with
  | text hpending htext hcontent => exact rereads_text hd hpending htext hcontent
  | space hcontent hpermits hdeliver _ =>
    exact rereads_space hd hcontent hpermits hdeliver (hspace List.mem_cons_self)
  | opened hbegins hempty => exact rereads_opened hbegins hempty
  | empty hbegins hempty => exact rereads_empty hd hbegins hempty
  | closed he _ hdeliver => exact rereads_closed hd he hdeliver
  | verbatim he hcdata hpending hverbatim =>
    exact rereads_verbatim hd he hcdata hpending hverbatim
  | unknown hrule hname htoken hmarkup hdeliver =>
    exact rereads_unknown hd hrule hname htoken hmarkup hdeliver

/-- Regular events are read again. -/
theorem Regular.rereads (h : Regular g d events causes d') (hd : d.elements.Sound g.dtd)
    (hspace : .characterData " " true ∈ events → g.dialect.spaceEntity = some "nbsp") :
    Rereads g d events causes d' := by
  induction h with
  | refl => exact .refl _
  | step hpassage _ ih =>
    refine (hpassage.rereads hd fun h => ?_).trans (ih (hpassage.sound hd) fun h => ?_)
    · exact hspace (List.mem_append_left _ h)
    · exact hspace (List.mem_append_right _ h)

/-! ## Whole documents -/

/-- Ending a document without open elements delivers its text. -/
theorem finish_of_deliverable {text : String} (line : Nat) (hstack : d.elements.stack = [])
    (htext : dropLineEnd d.pending = text)
    (h : Document.Deliverable { d with pending := text } d.elements.content) :
    actionEvents (d.finish line).2 = textEvents text ++ [.finished] ∧
      actionCauses (d.finish line).2 = [] := by
  obtain ⟨hevents, hcauses⟩ := d.flushAs_of_deliverable true line htext h
  unfold Document.finish
  rw [hstack]
  simp only [List.length_nil, Document.closeMany, List.nil_append, Document.flush]
  rw [actionEvents_append, hevents, actionCauses_append, hcauses]
  exact ⟨rfl, rfl⟩

/-- The markup of a whole document is read to its end, and delivers the document. -/
theorem reads_markup (h : Regular g .start events causes d) (hstack : d.elements.stack = [])
    (hdeliver : d.Deliverable d.elements.content)
    (hspace : .characterData " " true ∈ events → g.dialect.spaceEntity = some "nbsp") :
    (read g (.ofText (Writer.markup (events ++ [.finished])))).outcome = .finished ∧
      (read g (.ofText (Writer.markup (events ++ [.finished])))).events = events ++ [.finished] ∧
      actionCauses (read g (.ofText (Writer.markup (events ++ [.finished])))).actions = causes := by
  obtain ⟨markup, delivered, hwrite, hread, hevents⟩ := h.rereads OpenElements.sound_none hspace
  have hmarkup : Writer.markup (events ++ [.finished]) =
      markup ++ (if endsLine d.pending then "\n" else "") := by
    unfold Writer.markup
    rw [List.foldl_append, show Writer.empty = writerAt .start "" from rfl, hwrite,
      String.empty_append]
    show (Writer.settleLineEnd _).output = _
    unfold Writer.settleLineEnd writerAt
    simp only
    split
    · rfl
    · rw [String.append_empty]
  have hall : Reads g ⟨.text .content, .start, (Writer.markup (events ++ [.finished])).toList⟩
      delivered causes
      (between { d with pending := endTwice d.pending } []) := by
    rw [hmarkup, String.toList_append]
    refine (hread _).before ?_
    have hline := reads_lineEnd (g := g) d []
    rwa [List.append_nil] at hline
  obtain ⟨line, actions, htrace, hactions, hcauses⟩ := exists_trace_of_reads hall
  obtain ⟨hfinish, hfinishCauses⟩ :=
    finish_of_deliverable (d := { d with pending := endTwice d.pending }) line hstack
      (dropLineEnd_endTwice _) hdeliver
  unfold Source.ofText
  rw [htrace]
  refine ⟨rfl, ?_, ?_⟩
  · show actionEvents (_ ++ _) = _
    rw [actionEvents_append, hactions, hfinish, ← List.append_assoc, ← hevents]
    rfl
  · rw [actionCauses_append, hcauses, hfinishCauses, List.append_nil]

end Markup
