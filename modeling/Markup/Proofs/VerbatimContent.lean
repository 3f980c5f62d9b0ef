import Markup.Proofs.Events.Effects
import Markup.Proofs.Reader.RawScanning
import Markup.Proofs.Reader.Skipping

/-!
# Verbatim content

The content of an element of type CDATA is delivered as it is written, up to an end tag of the
element itself or the end of the source (`verbatim_up_to_endTag`). Before the element begins, room
is made for it and the text before it is flushed, as before any other element
(`traverses_rawStartTag`).
-/

namespace Markup

open Reader

/-- No end tag of the element is in the text: each `</` with the name of the element after it, in
any case, has a name character after the name. -/
def Element.NoEndIn (e : Element) (text : String) : Prop :=
  ∀ before spelling after : String, text = before ++ "</" ++ spelling ++ after →
    spelling.toUpper = e.name.text → after.toList.head?.any isNameChar = true

/-- A text as the content of an element of type CDATA delivers it: its line ends are unified, and it
loses the last one. -/
def verbatimText (text : String) : String :=
  dropLineEnd (String.ofList (unifyLines text.toList))

/-- A text spells a name just when it is the same text in upper case. -/
theorem toUpper_eq_text_iff {name : Name} {spelling : String} :
    spelling.toUpper = name.text ↔
      spelling.toList.map Char.toUpper = name.text.toList.map Char.toUpper := by
  have hname : name.text.toList.map Char.toUpper = name.text.toList := by
    rw [← String.toList_map]
    exact congrArg String.toList name.upper
  rw [hname, ← String.toList_inj, String.toUpper, String.toList_map]

/-- A text without an end tag of an element is undelimited. -/
theorem noEndIn_iff_undelimited {e : Element} {text : String} :
    e.NoEndIn text ↔ Undelimited e.name.text.toList text.toList [] := by
  rw [undelimited_iff_occurrences]
  constructor
  · intro h before spelling after htext hspelling
    have hafter := h (.ofList before) (.ofList spelling) (.ofList after)
      (String.toList_injective (by simpa using htext))
      (toUpper_eq_text_iff.2 (by simpa using hspelling))
    rwa [String.toList_ofList] at hafter
  · intro h before spelling after htext hspelling
    refine h before.toList spelling.toList after.toList ?_ (toUpper_eq_text_iff.1 hspelling)
    rw [htext]
    simp

namespace Reader

variable {f : Feed} {g : Grammar} {e : Element} {d made : Document} {line : Nat}
  {making : List Action} {opening closing text : String} {cs : List Char}

/-- What the start tag of an element does before the element begins: it makes room for the element
and flushes the text before it. -/
theorem traverses_rawStartTag (hspells : g.dtd.Spells e) (hcdata : e.content = .cdata)
    (hopening : opening.toUpper = e.name.text)
    (hmade : d.makeRoom g.dtd line e = (made, making)) :
    Traverses f g ⟨.text .content, d, '<' :: (opening.toList ++ '>' :: cs)⟩
      (actionEvents (making ++ (made.flush line false).2) ++ [.startTag e .empty])
      (actionCauses (making ++ (made.flush line false).2))
      ⟨.text (.raw e), ⟨made.elements.push e, ""⟩, cs⟩ := by
  have htoken : isToken opening = true := by
    rw [← isToken_toUpper, hopening]
    exact hspells.token
  have hfold : Name.fold opening = e.name := Name.ext hopening
  have hroom : Traverses f g ⟨.startTagName opening, d, '>' :: cs⟩ (actionEvents making)
      (actionCauses making) ⟨.attributes ⟨e, .empty⟩, made, '>' :: cs⟩ := by
    refine .leave (steady_of_unheld rfl) Feed.ends_of_cons fun input => ?_
    have hagree := d.agree_makeRoom input.line line g.dtd e
    rw [hmade] at hagree
    refine ⟨(d.makeRoom g.dtd input.line e).2, ?_, actionEvents_of_effects hagree.effects,
      actionCauses_of_effects hagree.effects⟩
    show endStartTagName g _ (.fold opening) = _
    have hdocument : (d.makeRoom g.dtd input.line e).1 = made := hagree.document
    rw [endStartTagName, hfold, hspells.declared, ← hdocument]
    rfl
  have hopen : Traverses f g ⟨.attributes ⟨e, .empty⟩, made, '>' :: cs⟩
      (actionEvents (made.flush line false).2 ++ [.startTag e .empty])
      (actionCauses (made.flush line false).2)
      ⟨.text (.raw e), ⟨made.elements.push e, ""⟩, cs⟩ := by
    refine .take (steady_of_unheld rfl) fun input => ?_
    have hagree := made.agree_flush input.consume.line line false
    refine ⟨(made.openElement input.consume.line e .empty).2, ?_, ?_, ?_⟩
    · show endStartTag _ ⟨e, .empty⟩ = _
      simp only [endStartTag, hcdata]
      rfl
    · rw [Document.openElement_eq, actionEvents_append, actionEvents_of_effects hagree.effects]
      rfl
    · rw [Document.openElement_eq, actionCauses_append, actionCauses_of_effects hagree.effects]
      exact List.append_nil _
  rw [actionEvents_append, actionCauses_append, List.append_assoc]
  exact ((traverses_startTagName htoken).after hroom).trans hopen

/-- The content of the element is text, up to the end of the source or an end tag. -/
theorem traverses_rawContent (hspells : g.dtd.Spells e) (hcdata : e.content = .cdata)
    (hopening : opening.toUpper = e.name.text) (htext : e.NoEndIn text)
    (hmade : d.makeRoom g.dtd line e = (made, making)) (hend : cs = [] → f.Ends)
    (hcs : ∀ c, cs.head? = some c → c = '<') :
    Traverses f g ⟨.text .content, d, ("<" ++ opening ++ ">" ++ text).toList ++ cs⟩
      (actionEvents (making ++ (made.flush line false).2) ++ [.startTag e .empty])
      (actionCauses (making ++ (made.flush line false).2))
      ⟨.text (.raw e), ⟨made.elements.push e, String.ofList (unifyLines text.toList)⟩, cs⟩ := by
  have hsource : ("<" ++ opening ++ ">" ++ text).toList ++ cs =
      '<' :: (opening.toList ++ '>' :: (text.toList ++ cs)) := by simp
  have hcontent : Traverses f g
      ⟨.text (.raw e), ⟨made.elements.push e, ""⟩, text.toList ++ cs⟩ [] []
      ⟨.text (.raw e), ⟨made.elements.push e, "" ++ String.ofList (unifyLines text.toList)⟩, cs⟩ :=
    traverses_raw hspells.token hcdata hend hcs (noEndIn_iff_undelimited.1 htext)
  rw [String.empty_append] at hcontent
  rw [hsource]
  exact (traverses_rawStartTag hspells hcdata hopening hmade).before hcontent

/-- The text in the element can be delivered. -/
theorem deliverable_verbatim (hcdata : e.content = .cdata) (elements : OpenElements)
    (text : String) : Document.Deliverable ⟨elements.push e, text⟩ (elements.push e).content := by
  have hcurrent : (elements.push e).current? = some e := rfl
  refine Document.deliverable_of_current hcurrent ?_
  show e.content.permitsText = true
  rw [hcdata]
  rfl

/-- The element with its end tag. -/
theorem traverses_verbatim (hspells : g.dtd.Spells e) (hcdata : e.content = .cdata)
    (hopening : opening.toUpper = e.name.text) (hclosing : closing.toUpper = e.name.text)
    (htext : e.NoEndIn text) (hmade : d.makeRoom g.dtd line e = (made, making)) :
    Traverses f g
      ⟨.text .content, d, ("<" ++ opening ++ ">" ++ text ++ ("</" ++ closing ++ ">")).toList⟩
      (actionEvents (making ++ (made.flush line false).2) ++ [.startTag e .empty] ++
        (textEvents (verbatimText text) ++ [.endTag e]))
      (actionCauses (making ++ (made.flush line false).2))
      ⟨.text .content, ⟨(made.elements.push e).pop, ""⟩, []⟩ := by
  have hsource : ("<" ++ opening ++ ">" ++ text ++ ("</" ++ closing ++ ">")).toList =
      ("<" ++ opening ++ ">" ++ text).toList ++ '<' :: '/' :: (closing.toList ++ '>' :: []) := by
    simp
  have hcontent : Traverses f g
      ⟨.text .content, d,
        ("<" ++ opening ++ ">" ++ text).toList ++ '<' :: '/' :: (closing.toList ++ '>' :: [])⟩
      (actionEvents (making ++ (made.flush line false).2) ++ [.startTag e .empty])
      (actionCauses (making ++ (made.flush line false).2))
      ⟨.text (.raw e), ⟨made.elements.push e, String.ofList (unifyLines text.toList)⟩,
        '<' :: '/' :: (closing.toList ++ '>' :: [])⟩ :=
    traverses_rawContent hspells hcdata hopening htext hmade Feed.ends_of_cons
      fun c hc => (Option.some.inj hc).symm
  have hend : Traverses f g
      ⟨.text (.raw e), ⟨made.elements.push e, String.ofList (unifyLines text.toList)⟩,
        '<' :: '/' :: (closing.toList ++ '>' :: [])⟩
      (textEvents (verbatimText text) ++ [.endTag e]) []
      ⟨.text .content, ⟨(made.elements.push e).pop, ""⟩, []⟩ :=
    traverses_rawEndTag (toUpper_eq_text_iff.1 hclosing) rfl rfl
      (deliverable_verbatim hcdata made.elements _)
  rw [hsource]
  have hboth := hcontent.trans hend
  rwa [List.append_nil] at hboth

/-- At the end of the source the element ends before all others. -/
theorem finish_verbatim (hcdata : e.content = .cdata) (elements : OpenElements) (text : String)
    (line line' : Nat) :
    actionEvents (Document.finish
          ⟨elements.push e, String.ofList (unifyLines text.toList)⟩ line').2 =
        textEvents (verbatimText text) ++ [.endTag e] ++
          actionEvents (Document.finish ⟨(elements.push e).pop, ""⟩ line).2 ∧
      actionCauses (Document.finish
          ⟨elements.push e, String.ofList (unifyLines text.toList)⟩ line').2 =
        actionCauses (Document.finish ⟨(elements.push e).pop, ""⟩ line).2 := by
  have hcurrent : (elements.push e).current? = some e := rfl
  have hothers := Document.effects_finish ⟨(elements.push e).pop, ""⟩ line' line
  obtain ⟨hevents, hcauses⟩ := Document.closeCurrent_of_deliverable
    (d := ⟨elements.push e, String.ofList (unifyLines text.toList)⟩) line' hcurrent rfl
    (deliverable_verbatim hcdata elements (verbatimText text))
  rw [Document.finish_of_current line' hcurrent, actionEvents_append, actionCauses_append,
    hevents, hcauses, Document.closeCurrent_eq line' hcurrent]
  exact ⟨congrArg _ (actionEvents_of_effects hothers), actionCauses_of_effects hothers⟩

end Reader

/-- The content of an element of type CDATA is delivered verbatim. In content, the source holds the
start tag of the element, a text in which there is no end tag of the element, and the end tag, the
names in any case. After what it takes to make room for the element and to flush the text before it,
the start of the element is delivered, its text unless it is empty, and the end of the element. What
comes after the end tag is read as content. Where the source ends instead of the end tag, the same
is delivered before the document is finished. -/
theorem verbatim_up_to_endTag {g : Grammar} {e : Element} {s : State} {opening text : String}
    {line : Nat} {made : Document} {making : List Action} (hspells : g.dtd.Spells e)
    (hcdata : e.content = .cdata) (hopening : opening.toUpper = e.name.text)
    (htext : e.NoEndIn text) (hmode : s.mode = .text .content)
    (hmade : s.document.makeRoom g.dtd line e = (made, making)) :
    (∀ (closing source : String) (rest : Source), closing.toUpper = e.name.text →
        source = "<" ++ opening ++ ">" ++ text ++ ("</" ++ closing ++ ">") →
        s.input.pushback = none → s.input.upcoming = .ofText source ++ rest →
        (s.input.skip source.length).upcoming = rest ∧
          ∃ (actions : List Action) (t : Trace), run g s = t.prepend actions ∧
            actionEvents actions =
              actionEvents (making ++ (made.flush line false).2) ++ [.startTag e .empty] ++
                (textEvents (verbatimText text) ++ [.endTag e]) ∧
            actionCauses actions = actionCauses (making ++ (made.flush line false).2) ∧
            t.Alike (run g ⟨s.input.skip source.length, .text .content,
              ⟨(made.elements.push e).pop, ""⟩⟩)) ∧
      (s.input.upcoming = .ofText ("<" ++ opening ++ ">" ++ text) →
        ∃ actions : List Action, run g s = ⟨actions, .finished⟩ ∧
          actionEvents actions =
            actionEvents (making ++ (made.flush line false).2) ++ [.startTag e .empty] ++
              (textEvents (verbatimText text) ++ [.endTag e] ++
                actionEvents (Document.finish ⟨(made.elements.push e).pop, ""⟩ line).2) ∧
          actionCauses actions = actionCauses (making ++ (made.flush line false).2) ++
            actionCauses (Document.finish ⟨(made.elements.push e).pop, ""⟩ line).2) := by
  constructor
  · rintro closing source rest hclosing rfl hpushback hup
    obtain ⟨actions, t, hreach, hevents, hcauses, halike⟩ :=
      (traverses_verbatim hspells hcdata hopening hclosing htext hmade).exists_run hmode rfl
        hpushback hup
    rw [← String.length_toList]
    refine ⟨?_, actions, run g t, hreach.run_eq, hevents, hcauses, halike⟩
    rw [Input.upcoming_skip hpushback, hup]
    exact List.drop_left' (List.length_map _)
  · intro hup
    have hcontent : Traverses (.before []) g
        ⟨.text .content, s.document, ("<" ++ opening ++ ">" ++ text).toList ++ []⟩ _ _
        ⟨.text (.raw e), ⟨made.elements.push e, String.ofList (unifyLines text.toList)⟩, []⟩ :=
      traverses_rawContent hspells hcdata hopening htext hmade (fun _ => Feed.ends_before)
        fun c hc => absurd hc (by simp)
    have hupcoming : s.input.upcoming =
        (("<" ++ opening ++ ">" ++ text).toList ++ []).map .ok ++ [] := by
      rw [List.append_nil, List.append_nil]
      exact hup
    obtain ⟨actions, t, hreach, ht, hevents, hcauses⟩ := hcontent s ⟨hmode, rfl, hupcoming⟩
    obtain ⟨line', hfinish⟩ := exists_finish ht
    obtain ⟨hlast, hothers⟩ := finish_verbatim hcdata made.elements text line line'
    refine ⟨_, hreach.run_eq.trans (congrArg (Trace.prepend actions) hfinish), ?_, ?_⟩
    · rw [actionEvents_append, hevents, hlast]
    · rw [actionCauses_append, hcauses, hothers]

/-- Documents with code in them. -/
def codes : Grammar where
  dtd := (Dtd.ofRoot "CODE").addElement (.ofName "CODE" .cdata)
  dialect := .strict

/-- Neither the end tag of another element nor the line end after it ends the code. -/
theorem verbatim_up_to_endTag_code :
    (Element.ofName "CODE" .cdata).NoEndIn "<x</codex>\r\n" ∧
      ∃ actions t, run codes (.start codes (.ofText "<CODE><x</codex>\r\n</CoDe>y")) =
          Trace.prepend actions t ∧
        actionEvents actions = [.startTag (.ofName "CODE" .cdata) .empty,
          .characterData "<x</codex>" false, .endTag (.ofName "CODE" .cdata)] ∧
        actionCauses actions = [] ∧ t.Alike (run codes (.start codes (.ofText "y"))) := by
  have hnoEnd : (Element.ofName "CODE" .cdata).NoEndIn "<x</codex>\r\n" :=
    noEndIn_iff_undelimited.2 (by decide +kernel)
  refine ⟨hnoEnd, ?_⟩
  have hspells : codes.dtd.Spells (.ofName "CODE" .cdata) := ⟨by decide +kernel, by decide +kernel⟩
  have hmade : Document.start.makeRoom codes.dtd 1 (.ofName "CODE" .cdata) = (.start, []) := by
    decide +kernel
  have hopening : "CODE".toUpper = (Element.ofName "CODE" .cdata).name.text :=
    toUpper_eq_text_iff.2 (by decide +kernel)
  have hclosing : "CoDe".toUpper = (Element.ofName "CODE" .cdata).name.text :=
    toUpper_eq_text_iff.2 (by decide +kernel)
  obtain ⟨-, actions, t, hrun, hevents, hcauses, halike⟩ := (verbatim_up_to_endTag
    (s := .start codes (.ofText "<CODE><x</codex>\r\n</CoDe>y")) hspells rfl hopening hnoEnd rfl
    hmade).1 "CoDe" "<CODE><x</codex>\r\n</CoDe>" (.ofText "y") hclosing (by decide +kernel) rfl
    (by decide +kernel)
  have hleft : (⟨(State.start codes (.ofText "<CODE><x</codex>\r\n</CoDe>y")).input.skip
      "<CODE><x</codex>\r\n</CoDe>".length, .text .content,
      ⟨(Document.start.elements.push (.ofName "CODE" .cdata)).pop, ""⟩⟩ : State) =
        .start codes (.ofText "y") := rfl
  rw [hleft] at halike
  exact ⟨actions, t, hrun, hevents.trans (by decide +kernel), hcauses.trans (by decide +kernel),
    halike⟩

end Markup
