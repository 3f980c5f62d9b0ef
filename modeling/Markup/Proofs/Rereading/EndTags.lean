import Markup.Proofs.Reader.RawScanning
import Markup.Proofs.Reader.Steps
import Markup.Proofs.Rereading.StartTags

/-!
# Reading written end tags and raw text

A line end right before an end tag is lost on reading, so the writer writes one more where the text
ends with one (`dropLineEnd_endTwice`). After that an end tag ends the innermost element, whether
tags are recognised there (`reads_endTag`) or the content is raw (`reads_rawEndTag`). Text that is
written as it is inside a raw element is read as it is (`reads_raw`).
-/

namespace Markup

/-! ## Line ends before end tags -/

/-- Whether a text ends with a line end. -/
def endsLine (text : String) : Bool :=
  text.toList.getLast? == some '\n'

/-- A text with its last line end written twice. -/
def endTwice (text : String) : String :=
  if endsLine text then text ++ "\n" else text

/-- A text that has its last line end twice keeps it when one is lost. -/
theorem dropLineEnd_endTwice (text : String) : dropLineEnd (endTwice text) = text := by
  unfold endTwice
  by_cases hline : endsLine text = true
  · have hlast : (text ++ "\n").toList = text.toList ++ ['\n'] := by simp
    rw [if_pos hline, dropLineEnd, hlast, List.getLast?_concat, if_pos rfl, List.dropLast_concat,
      String.ofList_toList]
  · rw [if_neg hline]
    refine dropLineEnd_of_ne fun hlast => hline ?_
    rw [endsLine, hlast]
    rfl

/-- A text that is written as it is may have its last line end twice. -/
theorem Element.Verbatim.endTwice {e : Element} {text : String} (h : e.Verbatim text [])
    (htoken : isToken e.name.text = true) : e.Verbatim (endTwice text) [] := by
  unfold Markup.endTwice
  split
  · have hline : e.Verbatim text ['\n'] :=
      h.of_stops htoken Reader.stops_nil (Reader.stops_cons (by decide) (by decide))
    refine hline.append (by decide) (Reader.undelimited_of_forall_ne fun c hc => ?_)
    rw [List.mem_singleton.1 hc]
    decide
  · exact h

namespace Reader

variable {g : Grammar} {d : Document} {cs : List Char} {e : Element} {name : Name}

/-- The line end that is written once more is text. -/
theorem reads_lineEnd (d : Document) (cs : List Char) :
    Reads g (between d ((if endsLine d.pending then "\n" else "").toList ++ cs)) [] []
      (between { d with pending := endTwice d.pending } cs) := by
  unfold endTwice
  split
  · exact reads_text (fun h => absurd h (by decide)) (by decide) (by decide)
  · exact .refl _

/-! ## End tags -/

/-- The name of an end tag is read up to the `>`. -/
theorem reads_endTagName (htoken : isToken name.text = true) :
    Reads g ⟨.text .content, d, '<' :: '/' :: (name.text.toList ++ '>' :: cs)⟩ [] []
      ⟨.endTagRest name, d, '>' :: cs⟩ := by
  have hname : Traverses (.before []) g
      ⟨.text .content, d, '<' :: '/' :: (name.text.toList ++ '>' :: cs)⟩ [] []
      ⟨.endTagRest (.fold name.text), d, '>' :: cs⟩ :=
    traverses_endTagName htoken Feed.ends_of_cons fun c hc => by
      rw [← Option.some.inj hc]
      decide
  rw [Name.fold_text] at hname
  exact reads_iff_traverses.2 hname

/-- The innermost element ends as the innermost one of its name. -/
theorem closeElement_current (line : Nat) (he : d.elements.current? = some e) :
    d.closeElement line e.name = d.closeCurrent line := by
  have hclosings : d.elements.closingsThrough? e.name = some 1 := by
    rw [OpenElements.closingsThrough?, OpenElements.stack_of_current he, List.findIdx?_cons,
      beq_self_eq_true, if_pos rfl]
    rfl
  unfold Document.closeElement
  rw [hclosings]
  simp [Document.closeMany, he]

/-- The markup of an end tag. -/
theorem toList_endTag (name : Name) :
    ("</" ++ name.text ++ ">").toList ++ cs = '<' :: '/' :: (name.text.toList ++ '>' :: cs) := by
  simp

/-- A written end tag ends the innermost element, where tags are recognised. -/
theorem reads_endTag {text : String}
    (hspelt : g.dtd.Spells e) (he : d.elements.current? = some e)
    (htext : dropLineEnd d.pending = text)
    (hdeliver : Document.Deliverable { d with pending := text } d.elements.content) :
    Reads g ⟨.text .content, d, ("</" ++ e.name.text ++ ">").toList ++ cs⟩
      (textEvents text ++ [.endTag e]) [] ⟨.text .content, ⟨d.elements.pop, ""⟩, cs⟩ := by
  have hend : Reads g ⟨.endTagRest e.name, d, '>' :: cs⟩ (textEvents text ++ [.endTag e]) []
      ⟨.text .content, ⟨d.elements.pop, ""⟩, cs⟩ := by
    apply Reads.take
    intro input
    obtain ⟨hevents, hcauses⟩ := d.closeCurrent_of_deliverable input.consume.line he htext hdeliver
    refine ⟨(d.closeCurrent input.consume.line).2, ?_, hevents, hcauses⟩
    show endEndTag g _ e.name = _
    unfold endEndTag
    rw [if_pos hspelt.declares]
    show State.change _ _ (d.closeElement input.consume.line e.name) = _
    rw [closeElement_current _ he, Document.closeCurrent_eq _ he]
    rfl
  rw [toList_endTag]
  exact (reads_endTagName hspelt.token).after hend

/-- A written end tag without a declared element is delivered where the dialect says so. -/
theorem reads_unknownEndTag {text : String} (hrule : g.dialect.unknownEndTags = .synthesize)
    (hname : g.dtd.declares name = false) (htoken : isToken name.text = true)
    (htext : dropLineEnd d.pending = text)
    (hdeliver : Document.Deliverable { d with pending := text } .pcdata) :
    Reads g ⟨.text .content, d, ("</" ++ name.text ++ ">").toList ++ cs⟩
      (textEvents text ++ [.endTag (.ofName name.text .pcdata)]) []
      ⟨.text .content, d.settled, cs⟩ := by
  have hend : Reads g ⟨.endTagRest name, d, '>' :: cs⟩
      (textEvents text ++ [.endTag (.ofName name.text .pcdata)]) []
      ⟨.text .content, d.settled, cs⟩ := by
    apply Reads.take
    intro input
    obtain ⟨hevents, hcauses⟩ := d.flushAs_of_deliverable true input.consume.line htext hdeliver
    refine ⟨(d.flushAs input.consume.line .pcdata true).2 ++
      [.deliver (.endTag (.ofName name.text .pcdata))], ?_, ?_, ?_⟩
    · show endEndTag g _ name = _
      unfold endEndTag
      rw [hname, hrule]
      rfl
    · rw [actionEvents_append, hevents]
      rfl
    · rw [actionCauses_append, hcauses]
      rfl
  rw [toList_endTag]
  exact (reads_endTagName htoken).after hend

/-! ## Raw text -/

/-- A written end tag ends an element with raw content. -/
theorem reads_rawEndTag {text : String} (he : d.elements.current? = some e)
    (htext : dropLineEnd d.pending = text)
    (hdeliver : Document.Deliverable { d with pending := text } d.elements.content) :
    Reads g ⟨.text (.raw e), d, ("</" ++ e.name.text ++ ">").toList ++ cs⟩
      (textEvents text ++ [.endTag e]) [] ⟨.text .content, ⟨d.elements.pop, ""⟩, cs⟩ := by
  rw [toList_endTag]
  exact reads_iff_traverses.2 (traverses_rawEndTag rfl he htext hdeliver)

/-- Raw text that holds no carriage return and no end tag is read as it is. -/
theorem reads_raw (htoken : isToken e.name.text = true) (hcdata : e.content = .cdata)
    {text : List Char} (hreturn : '\r' ∉ text)
    (hundelimited : Undelimited e.name.text.toList text []) :
    Reads g ⟨.text (.raw e), d, text ++ '<' :: cs⟩ [] []
      ⟨.text (.raw e), d.append (String.ofList text), '<' :: cs⟩ := by
  have hraw : Traverses (.before []) g ⟨.text (.raw e), d, text ++ '<' :: cs⟩ [] []
      ⟨.text (.raw e), d.append (String.ofList (unifyLines text)), '<' :: cs⟩ :=
    traverses_raw htoken hcdata Feed.ends_of_cons (fun c hc => (Option.some.inj hc).symm)
      hundelimited
  rw [unifyLines_of_not_mem hreturn] at hraw
  exact reads_iff_traverses.2 hraw

end Reader

end Markup
