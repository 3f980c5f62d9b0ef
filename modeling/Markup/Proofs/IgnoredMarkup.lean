import Markup.Proofs.Reader.Skipping
import Markup.Proofs.Reader.Token
import Markup.Proofs.Session.Quiet

/-!
# Markup that is ignored

Comments, declarations and processing instructions are passed over, and so are the tags of elements
that are not declared and end tags of elements that are not open (`Ignored`). Wherever such markup
stands between tags, a document is read as it would be without it: the text before it and the text
after it are one text (`ignored_transparent`). All that is left of the markup are its own problems.
-/

namespace Markup

open Reader

/-- The first `-->` among characters is at their end. -/
def ClosesAtEnd (cs : List Char) : Prop :=
  ∀ before after, cs = before ++ ['-', '-', '>'] ++ after → after = []

/-- The rest of a tag after its name. -/
structure TagRest (rest : String) : Prop where
  /-- It does not begin another tag. -/
  noStart : '<' ∉ rest.toList
  /-- It does not end the tag. -/
  noEnd : '>' ∉ rest.toList
  /-- It does not go on with the name. -/
  apart : ∀ c, rest.toList.head? = some c → isNameChar c = false

/-- The character after the name of a tag does not go on with it. -/
theorem TagRest.not_isNameChar {rest : String} (h : TagRest rest) {c : Char}
    {cs : List Char} (hc : (rest.toList ++ '>' :: cs).head? = some c) : isNameChar c = false := by
  cases hrest : rest.toList with
  | nil =>
    rw [hrest] at hc
    obtain rfl : '>' = c := Option.some.inj hc
    decide
  | cons x more =>
    rw [hrest] at hc
    exact h.apart c (by rw [hrest]; exact hc)

/-- Markup that is ignored among open elements, with the problems that it is worth. -/
inductive Ignored (g : Grammar) (opened : List Element) : String → List IssueCause → Prop
  /-- A comment, which ends at the first `-->`. -/
  | comment {text : String} : ClosesAtEnd (text ++ "-->").toList →
      Ignored g opened ("<!--" ++ text ++ "-->") []
  /-- Another declaration. -/
  | declaration {text : String} : '>' ∉ text.toList → ¬['-', '-'] <+: text.toList →
      Ignored g opened ("<!" ++ text ++ ">") []
  /-- A processing instruction. -/
  | instruction {text : String} : '>' ∉ text.toList →
      Ignored g opened ("<?" ++ text ++ ">") [.processingInstruction]
  /-- A start tag without a declared element. -/
  | startTag {name rest : String} : isToken name = true → TagRest rest →
      g.dtd.declares (.fold name) = false →
      Ignored g opened ("<" ++ name ++ rest ++ ">") [.undefinedStartTag (.fold name)]
  /-- An end tag without a declared element, where such tags are dropped. -/
  | undeclaredEnd {name rest : String} : isToken name = true → TagRest rest →
      g.dtd.declares (.fold name) = false → g.dialect.unknownEndTags = .drop →
      Ignored g opened ("</" ++ name ++ rest ++ ">") [.undefinedEndTag (.fold name)]
  /-- The end tag of a declared element that is not open. -/
  | unmatchedEnd {name rest : String} : isToken name = true → TagRest rest →
      g.dtd.declares (.fold name) = true → (∀ x ∈ opened, x.name ≠ .fold name) →
      Ignored g opened ("</" ++ name ++ rest ++ ">") [.unexpectedEndTag (.fold name)]

namespace Reader

variable {g : Grammar} {d : Document} {mode : Mode} {cs : List Char} {causes : List IssueCause}

/-! ## Passing over the parts of markup -/

/-- What is skipped ends at the first `>`. -/
theorem passesOver_skipped {text : List Char} (h : '>' ∉ text) :
    PassesOver g d .skipped (text ++ '>' :: cs) [] (.text .content) cs := by
  have htext : PassesOver g d .skipped (text ++ '>' :: cs) [] .skipped ('>' :: cs) := by
    refine PassesOver.all (fun _ => .skipped) (· ≠ '>') (fun _ => rfl) (fun _ c input hc => ?_)
      (fun c hc heq => h (heq ▸ hc)) ""
    simp only [stepOn, stepSkipped]
    rw [if_neg hc]
    rfl
  exact htext.after (.take_quiet rfl fun _ => rfl)

/-- A declaration that does not go on with a dash is skipped. -/
theorem passesOver_declaration {text : List Char} (hend : '>' ∉ text)
    (hdashes : ¬['-', '-'] <+: text) :
    PassesOver g d .declaration (text ++ '>' :: cs) [] (.text .content) cs := by
  have hleave {m : Mode} (hm : m = .declaration ∨ m = .declarationDash) {c : Char} (hc : c ≠ '-')
      (cs : List Char) : PassesOver g d m (c :: cs) [] .skipped (c :: cs) := by
    have hne : some c ≠ some '-' := fun h => hc (Option.some.inj h)
    rcases hm with rfl | rfl <;> refine .leave_quiet rfl fun input => ?_
    · simp only [stepOn, stepDeclaration]
      rw [if_neg hne]
      rfl
    · simp only [stepOn, stepDeclaration]
      rw [if_neg hne]
      rfl
  have hfirst {m : Mode} (hm : m = .declaration ∨ m = .declarationDash) {text : List Char}
      (hend : '>' ∉ text) (hdash : text.head? ≠ some '-') :
      PassesOver g d m (text ++ '>' :: cs) [] (.text .content) cs := by
    refine .after ?_ (passesOver_skipped hend)
    cases text with
    | nil => exact hleave hm (by decide) cs
    | cons c text => exact hleave hm (fun hc => hdash (by rw [hc]; rfl)) _
  by_cases hdash : text.head? = some '-'
  · obtain ⟨rest, rfl⟩ := List.head?_eq_some_iff.1 hdash
    refine (PassesOver.take_quiet rfl fun _ => rfl).after
      (hfirst (.inr rfl) (fun hmem => hend (List.mem_cons_of_mem _ hmem)) fun hrest => ?_)
    obtain ⟨rest', rfl⟩ := List.head?_eq_some_iff.1 hrest
    exact hdashes ⟨rest', rfl⟩
  · exact hfirst (.inl rfl) hend hdash

/-- A comment begins with two dashes. -/
theorem passesOver_commentStart (cs : List Char) :
    PassesOver g d .markup ('!' :: '-' :: '-' :: cs) [] (.comment 0) cs := by
  have hmarkup : PassesOver g d .markup ('!' :: '-' :: '-' :: cs) [] .declaration
      ('-' :: '-' :: cs) :=
    .take_quiet rfl fun _ => rfl
  have hdash : PassesOver g d .declaration ('-' :: '-' :: cs) [] .declarationDash ('-' :: cs) :=
    .take_quiet rfl fun _ => rfl
  exact (hmarkup.after hdash).after (.take_quiet rfl fun _ => rfl)

/-- A comment goes on up to the first `>` after two dashes, where the dashes just before the text
count. -/
theorem passesOver_comment {text : List Char} {dashes : Nat}
    (h : ClosesAtEnd (List.replicate dashes '-' ++ (text ++ ['-', '-', '>']))) :
    PassesOver g d (.comment dashes) (text ++ '-' :: '-' :: '>' :: cs) [] (.text .content) cs := by
  induction text generalizing dashes with
  | nil =>
    have hend : PassesOver g d (.comment (dashes + 2)) ('>' :: cs) [] (.text .content) cs :=
      .take_quiet rfl fun input => by
        simp only [stepOn, stepComment]
        rw [if_neg (by decide), if_pos ⟨trivial, Nat.le_add_left 2 dashes⟩]
        rfl
    exact (PassesOver.take_quiet rfl fun _ => rfl).after
      ((PassesOver.take_quiet rfl fun _ => rfl).after hend)
  | cons c text ih =>
    by_cases hdash : c = '-'
    · subst hdash
      have hfirst : PassesOver g d (.comment dashes) ('-' :: (text ++ '-' :: '-' :: '>' :: cs)) []
          (.comment (dashes + 1)) (text ++ '-' :: '-' :: '>' :: cs) :=
        .take_quiet rfl fun _ => rfl
      refine hfirst.after (ih ?_)
      rw [List.replicate_succ', List.append_assoc]
      exact h
    · have hfirst : PassesOver g d (.comment dashes) (c :: (text ++ '-' :: '-' :: '>' :: cs)) []
          (.comment 0) (text ++ '-' :: '-' :: '>' :: cs) := by
        refine .take_quiet rfl fun input => ?_
        have hopen : ¬(c = '>' ∧ 2 ≤ dashes) := by
          rintro ⟨rfl, hle⟩
          -- otherwise the comment would have ended here
          obtain ⟨n, rfl⟩ := Nat.exists_eq_add_of_le' hle
          have hempty := h (List.replicate n '-') (text ++ ['-', '-', '>']) (by
            rw [List.replicate_add, List.append_assoc, List.append_assoc]
            rfl)
          simp at hempty
        simp only [stepOn, stepComment]
        rw [if_neg hdash, if_neg hopen]
        rfl
      refine hfirst.after (ih fun before after heq => ?_)
      refine h (List.replicate dashes '-' ++ c :: before) after ?_
      rw [List.replicate_zero, List.nil_append] at heq
      rw [List.cons_append, heq]
      simp

/-- The rest of a tag is passed over up to its end. -/
theorem passesOver_tagRest {rest : String} (h : TagRest rest) {m : Mode} (done : State → Move)
    (hheld : m.isHeld = false)
    (hm : ∀ input c?, stepOn g ⟨input, m, d⟩ c? = stepTagRest ⟨input, m, d⟩ m done c?) :
    PassesOver g d m (rest.toList ++ '>' :: cs) [] m ('>' :: cs) := by
  refine PassesOver.all (fun _ => m) (fun c => c ≠ '>' ∧ c ≠ '<') (fun _ => hheld)
    (fun _ c input hc => ?_)
    (fun c hc => ⟨fun heq => h.noEnd (heq ▸ hc), fun heq => h.noStart (heq ▸ hc)⟩) ""
  rw [hm]
  simp only [stepTagRest]
  rw [if_neg hc.1, if_neg hc.2]
  rfl

/-! ## Passing over tags -/

/-- Between tags a `<` begins markup. -/
theorem passesOver_open (cs : List Char) :
    PassesOver g d (.text .content) ('<' :: cs) [] .markup cs :=
  .take_quiet rfl fun _ => rfl

/-- The tag of an element that is not declared. -/
theorem passesOver_startTag {name rest : String} (htoken : isToken name = true)
    (hrest : TagRest rest) (hdeclared : g.dtd.declares (.fold name) = false) :
    PassesOver g d (.text .content) ('<' :: (name.toList ++ (rest.toList ++ '>' :: cs)))
      [.undefinedStartTag (.fold name)] (.text .content) cs := by
  have hname : PassesOver g d (.text .content)
      ('<' :: (name.toList ++ (rest.toList ++ '>' :: cs))) []
      (.startTagName name) (rest.toList ++ '>' :: cs) :=
    passesOver_iff_traverses.2 fun _ => traverses_startTagName htoken
  have hnone : g.dtd.element? (.fold name) = none := by
    rw [← Option.not_isSome_iff_eq_none, Bool.not_eq_true]
    exact hdeclared
  have hend : PassesOver g d (.startTagName name) (rest.toList ++ '>' :: cs)
      [.undefinedStartTag (.fold name)] .startTagRest (rest.toList ++ '>' :: cs) := by
    refine passesOver_iff_traverses.2 fun k => .leave (steady_of_unheld rfl)
      (fun hnil => absurd hnil (by simp)) fun input =>
        ⟨[.report ⟨.undefinedStartTag (.fold name), input.line⟩], ?_, rfl, rfl⟩
    show stepStartTagName g _ name _ = _
    cases hnext : (rest.toList ++ '>' :: cs).head? with
    | none =>
      simp only [stepStartTagName, endStartTagName, hnone]
      rfl
    | some c =>
      simp only [stepStartTagName, hrest.not_isNameChar hnext, Bool.false_eq_true, if_false,
        endStartTagName, hnone]
      rfl
  have htagRest : PassesOver g d .startTagRest (rest.toList ++ '>' :: cs) [] (.text .content) cs :=
    (passesOver_tagRest hrest (·.goto (.text .content)) rfl fun _ _ => rfl).after
      (.take_quiet rfl fun _ => rfl)
  exact hname.after (hend.before htagRest)

/-- An end tag whose end does nothing to the document. -/
theorem passesOver_endTag {name rest : String} (htoken : isToken name = true)
    (hrest : TagRest rest)
    (hdone : ∀ input : Input, ∃ actions,
      endEndTag g ⟨input, .endTagRest (.fold name), d⟩ (.fold name) =
          (actions, .running ⟨input, .text .content, d⟩) ∧
        actionEvents actions = [] ∧ actionCauses actions = causes) :
    PassesOver g d (.text .content) (("</" ++ name ++ rest ++ ">").toList ++ cs) causes
      (.text .content) cs := by
  have hmarkup : ("</" ++ name ++ rest ++ ">").toList ++ cs =
      '<' :: '/' :: (name.toList ++ (rest.toList ++ '>' :: cs)) := by simp
  have hname : PassesOver g d (.text .content)
      ('<' :: '/' :: (name.toList ++ (rest.toList ++ '>' :: cs))) []
      (.endTagRest (.fold name)) (rest.toList ++ '>' :: cs) :=
    passesOver_iff_traverses.2 fun _ =>
      traverses_endTagName htoken (fun hnil => absurd hnil (by simp))
        fun _ hc => hrest.not_isNameChar hc
  have htagRest : PassesOver g d (.endTagRest (.fold name)) (rest.toList ++ '>' :: cs) causes
      (.text .content) cs :=
    (passesOver_tagRest hrest (endEndTag g · (.fold name)) rfl fun _ _ => rfl).after
      (.take rfl fun input => hdone input.consume)
  rw [hmarkup]
  exact hname.after htagRest

/-- Ignored markup is passed over between tags. -/
theorem passesOver_ignored {markup : String} (h : Ignored g d.elements.stack markup causes)
    (cs : List Char) :
    PassesOver g d (.text .content) (markup.toList ++ cs) causes (.text .content) cs := by
  cases h with
  | @comment text hcloses =>
    have hmarkup : ("<!--" ++ text ++ "-->").toList ++ cs =
        '<' :: '!' :: '-' :: '-' :: (text.toList ++ '-' :: '-' :: '>' :: cs) := by simp
    have hbody : ClosesAtEnd (List.replicate 0 '-' ++ (text.toList ++ ['-', '-', '>'])) := by
      simpa using hcloses
    rw [hmarkup]
    exact (passesOver_open _).after ((passesOver_commentStart _).after (passesOver_comment hbody))
  | @declaration text hend hdashes =>
    have hmarkup : ("<!" ++ text ++ ">").toList ++ cs =
        '<' :: '!' :: (text.toList ++ '>' :: cs) := by simp
    rw [hmarkup]
    refine (passesOver_open _).after (.after ?_ (passesOver_declaration hend hdashes))
    exact .take_quiet rfl fun _ => rfl
  | @instruction text hend =>
    have hmarkup : ("<?" ++ text ++ ">").toList ++ cs =
        '<' :: '?' :: (text.toList ++ '>' :: cs) := by simp
    rw [hmarkup]
    refine (passesOver_open _).after (.before ?_ (passesOver_skipped hend))
    exact .take rfl fun input => ⟨_, rfl, rfl, rfl⟩
  | @startTag name rest hname hrest hdeclared =>
    have hmarkup : ("<" ++ name ++ rest ++ ">").toList ++ cs =
        '<' :: (name.toList ++ (rest.toList ++ '>' :: cs)) := by simp
    rw [hmarkup]
    exact passesOver_startTag hname hrest hdeclared
  | @undeclaredEnd name rest hname hrest hdeclared hdrop =>
    refine passesOver_endTag hname hrest fun input =>
      ⟨[.report ⟨.undefinedEndTag (.fold name), input.line⟩], ?_, rfl, rfl⟩
    simp only [endEndTag, hdeclared, hdrop]
    rfl
  | @unmatchedEnd name rest hname hrest hdeclared hopen =>
    refine passesOver_endTag hname hrest fun input =>
      ⟨[.report ⟨.unexpectedEndTag (.fold name), input.line⟩], ?_, rfl, rfl⟩
    have hnone : d.elements.closingsThrough? (.fold name) = none := by
      rw [OpenElements.closingsThrough?, Option.map_eq_none_iff, List.findIdx?_eq_none_iff]
      exact fun x hx => beq_eq_false_iff_ne.2 (hopen x hx)
    simp only [endEndTag, hdeclared, if_true, Document.closeElement, hnone]
    rfl

/-! ## Reading on -/

variable {s : State} {rest : Source}

/-- The state without the next `n` characters of its input. -/
def State.skip (s : State) (n : Nat) : State :=
  { s with input := s.input.skip n }

/-- From a source below expansions that have been read to their end the characters are left out. -/
theorem skip_over (hfinished : expansionsText s.input.expansions = []) (text : String)
    (rest : Source) : (s.over (.ofText text ++ rest)).skip text.length = s.over rest := by
  have hlength : (Source.ofText text).length = text.length := by
    rw [Source.ofText, List.length_map, String.length_toList]
  have hdrop : (Source.ofText text ++ rest).drop text.length = rest := List.drop_left' hlength
  simp only [State.skip, State.over, Input.skip, skipText_of_expansionsText hfinished, hfinished,
    List.length_nil, Nat.sub_zero, hdrop]

/-- What is passed over between tags is read like nothing. -/
theorem exists_skipped (hmode : s.mode = .text .content) (hpushback : s.input.pushback = none)
    (hup : s.input.upcoming = cs.map .ok ++ rest)
    (h : PassesOver g s.document (.text .content) cs causes (.text .content) []) :
    ∃ actions t, Reaches g s actions t ∧ actionEvents actions = [] ∧
      actionCauses actions = causes ∧ (run g t).Alike (run g (s.skip cs.length)) := by
  obtain ⟨actions, t, hreach, hevents, hcauses, halike⟩ :=
    (passesOver_iff_traverses.1 h _).exists_run hmode rfl hpushback hup
  refine ⟨actions, t, hreach, hevents, hcauses, ?_⟩
  rwa [← hmode] at halike

end Reader

open Reader

/-- Markup that is ignored is transparent. From a state between tags, with nothing put back, reading
does with the markup in front what it does without it, after actions that deliver nothing and report
the problems of the markup. So without a token listeners of every kind receive the same, the parse
ends in the same way, and the problems of the markup are recorded before those of the rest. -/
theorem ignored_transparent {g : Grammar} {s : State} {markup : String} {causes : List IssueCause}
    {rest : Source} (h : Ignored g s.document.elements.stack markup causes)
    (hmode : s.mode = .text .content) (hpushback : s.input.pushback = none)
    (hup : s.input.upcoming = .ofText markup ++ rest) :
    (s.skip markup.length).input.upcoming = rest ∧
      (∃ actions, ∃ t : Trace, run g s = t.prepend actions ∧ actionEvents actions = [] ∧
        actionCauses actions = causes ∧ t.Alike (run g (s.skip markup.length))) ∧
      ∀ (α : Type) [Listener α] (session : Session α), session.cancellable = false →
        (session.performTrace (run g s)).1.listeners =
            (session.performTrace (run g (s.skip markup.length))).1.listeners ∧
          (session.performTrace (run g s)).2 =
            (session.performTrace (run g (s.skip markup.length))).2 ∧
          ∃ others, (session.performTrace (run g s)).1.issues.map Issue.cause =
              session.issues.map Issue.cause ++ causes ++ others ∧
            (session.performTrace (run g (s.skip markup.length))).1.issues.map Issue.cause =
              session.issues.map Issue.cause ++ others := by
  have hpasses := passesOver_ignored h []
  rw [List.append_nil] at hpasses
  obtain ⟨actions, t, hreach, hevents, hcauses, halike⟩ :=
    exists_skipped hmode hpushback hup hpasses
  rw [String.length_toList] at halike
  refine ⟨?_, ⟨actions, run g t, hreach.run_eq, hevents, hcauses, halike⟩, ?_⟩
  · have hlength : (Source.ofText markup).length = markup.length := by
      rw [Source.ofText, List.length_map, String.length_toList]
    rw [State.skip, Input.upcoming_skip hpushback, hup, List.drop_left' hlength]
  · intro α _ session hcancel
    rw [hreach.run_eq, ← hcauses]
    exact session.performTrace_quiet hcancel hevents halike

/-- Documents of one element. -/
def remarks : Grammar where
  dtd := (Dtd.ofRoot "D").addElement (.ofName "D" .pcdata)
  dialect := .strict

/-- A start tag of no declared element before a letter. -/
theorem ignored_transparent_tag :
    Ignored remarks [] ("<" ++ "B" ++ " A='1'" ++ ">") [.undefinedStartTag (.fold "B")] ∧
      ∃ actions, ∃ t : Trace,
        run remarks ((State.start remarks []).over
          (.ofText ("<" ++ "B" ++ " A='1'" ++ ">") ++ .ofText "x")) = t.prepend actions ∧
        actionEvents actions = [] ∧ actionCauses actions = [.undefinedStartTag (.fold "B")] ∧
        t.Alike (run remarks ((State.start remarks []).over (.ofText "x"))) := by
  have hignored : Ignored remarks [] ("<" ++ "B" ++ " A='1'" ++ ">")
      [.undefinedStartTag (.fold "B")] := by
    refine .startTag (by decide) ⟨by decide, by decide, fun c hc => ?_⟩ (by decide +kernel)
    cases hc
    decide
  refine ⟨hignored, ?_⟩
  have htransparent := (ignored_transparent (s := (State.start remarks []).over
    (.ofText ("<" ++ "B" ++ " A='1'" ++ ">") ++ .ofText "x")) hignored rfl rfl rfl).2.1
  rwa [skip_over rfl] at htransparent

end Markup
