import Markup.Proofs.Events.Operations
import Markup.Proofs.Input.Skip
import Markup.Proofs.Reader.Reaches
import Markup.Proofs.Reader.Token

/-!
# Traversing characters

`Traverses f g v events causes w` says that the reader gets from every state that looks like `v` to
one that looks like `w`, with these events and problems on the way. A state looks like its mode, its
document and the characters to come. How an input holds these characters before whatever else is to
come is the feed `f`: they may come before given reads (`Feed.before`), wherever they stand, or
before what is left in a given input (`Feed.above`).

A step is traversed by one of two lemmas: it takes the next character (`Traverses.take`) or looks at
what comes next and leaves it (`Traverses.leave`), which may be the end of the input. Traversals are
joined by `Traverses.trans`.
-/

namespace Markup.Reader

/-- What a state of the reader looks like. -/
structure View where
  /-- What the next character belongs to. -/
  mode : Mode
  /-- The document so far. -/
  document : Document
  /-- The characters to come. -/
  ahead : List Char

/-! ## Feeds -/

/-- A way in which inputs hold characters before whatever else they hold. -/
structure Feed where
  /-- The input holds the characters. -/
  Holds : List Char → Input → Prop
  /-- Whether it does so also while expansions are held. -/
  steady : Bool
  /-- A look finds the first of the characters, which can be left or taken. -/
  look : ∀ {holding : Bool} {c : Char} {cs : List Char} {i : Input},
    (holding = true → steady = true) → Holds (c :: cs) i →
    ∃ j, (i.hold holding).peek = (.ok (some c), j) ∧ Holds (c :: cs) j ∧ Holds cs j.consume

namespace Feed

/-- The characters come before these reads. -/
def before (rest : Source) : Feed where
  Holds cs i := i.upcoming = cs.map .ok ++ rest
  steady := true
  look := by
    intro holding c cs i _ hi
    exact Input.peek_of_upcoming_cons (i := i.hold holding) hi

/-- The characters come before what is left in an input. -/
def above (k : Input) : Feed where
  Holds := k.Gives
  steady := false
  look := by
    intro holding c cs i hsteady hi
    obtain rfl : holding = false := Bool.eq_false_iff.2 fun h => Bool.noConfusion (hsteady h)
    exact hi.look

/-- Nothing comes after the characters. -/
def Ends (f : Feed) : Prop :=
  ∀ (holding : Bool) (i : Input), (holding = true → f.steady = true) → f.Holds [] i →
    ∃ j, (i.hold holding).peek = (.ok none, j) ∧ f.Holds [] j

/-- The input ends after characters that nothing follows. -/
theorem ends_before : (before []).Ends := by
  intro holding i _ hi
  exact Input.peek_of_upcoming_nil (i := i.hold holding) hi

/-- What comes next is one of the characters or the end of the input. -/
theorem look_head {f : Feed} {holding : Bool} {cs : List Char} {i : Input}
    (hend : cs = [] → f.Ends) (hsteady : holding = true → f.steady = true) (hi : f.Holds cs i) :
    ∃ j, (i.hold holding).peek = (.ok cs.head?, j) ∧ f.Holds cs j := by
  cases cs with
  | nil => exact hend rfl holding i hsteady hi
  | cons c cs =>
    obtain ⟨j, hpeek, hkept, -⟩ := f.look hsteady hi
    exact ⟨j, hpeek, hkept⟩

/-- Before a character it does not matter what comes at the end. -/
theorem ends_of_cons {f : Feed} {c : Char} {cs : List Char} : c :: cs = [] → f.Ends :=
  fun hnil => absurd hnil (List.cons_ne_nil c cs)

end Feed

/-! ## Traversals -/

/-- The state looks like this, and its input holds the characters in this way. -/
structure State.Displays (s : State) (f : Feed) (v : View) : Prop where
  /-- It is in the mode. -/
  mode : s.mode = v.mode
  /-- It has read the document. -/
  document : s.document = v.document
  /-- The characters are to come. -/
  input : f.Holds v.ahead s.input

/-- The reader gets from one view to another, with these events and problems. -/
def Traverses (f : Feed) (g : Grammar) (v : View) (events : List Event) (causes : List IssueCause)
    (w : View) : Prop :=
  ∀ s : State, s.Displays f v → ∃ actions t, Reaches g s actions t ∧ t.Displays f w ∧
    actionEvents actions = events ∧ actionCauses actions = causes

variable {f : Feed} {g : Grammar} {mode mode' : Mode} {d d' : Document} {c : Char}
  {cs : List Char} {events more : List Event} {causes others : List IssueCause} {u v w : View}

/-- In a mode that holds no expansions any feed will do. -/
theorem steady_of_unheld (h : mode.isHeld = false) : mode.isHeld = true → f.steady = true :=
  fun hheld => absurd (h.symm.trans hheld) Bool.false_ne_true

namespace Traverses

/-- Every view leads to itself, without events. -/
theorem refl (v : View) : Traverses f g v [] [] v :=
  fun s hs => ⟨[], s, .refl s, hs, rfl, rfl⟩

/-- Traversals follow one another, and so do their events and problems. -/
theorem trans (h : Traverses f g u events causes v) (h' : Traverses f g v more others w) :
    Traverses f g u (events ++ more) (causes ++ others) w := by
  intro s hs
  obtain ⟨first, t, hfirst, ht, rfl, rfl⟩ := h s hs
  obtain ⟨second, r, hsecond, hr, rfl, rfl⟩ := h' t ht
  exact ⟨first ++ second, r, hfirst.trans hsecond, hr, actionEvents_append ..,
    actionCauses_append ..⟩

/-- A traversal after one without events or problems. -/
theorem after (h : Traverses f g u [] [] v) (h' : Traverses f g v events causes w) :
    Traverses f g u events causes w :=
  h.trans h'

/-- A traversal before one without events or problems. -/
theorem before (h : Traverses f g u events causes v) (h' : Traverses f g v [] [] w) :
    Traverses f g u events causes w := by
  have hboth := h.trans h'
  rwa [List.append_nil, List.append_nil] at hboth

/-- A step that takes the next character. -/
theorem take (hsteady : mode.isHeld = true → f.steady = true)
    (h : ∀ input : Input, ∃ actions,
      stepOn g ⟨input, mode, d⟩ (some c) = (actions, .running ⟨input.consume, mode', d'⟩) ∧
        actionEvents actions = events ∧ actionCauses actions = causes) :
    Traverses f g ⟨mode, d, c :: cs⟩ events causes ⟨mode', d', cs⟩ := by
  rintro ⟨input, m, document⟩ ⟨rfl, rfl, hinput⟩
  obtain ⟨j, hpeek, -, hrest⟩ := f.look hsteady hinput
  obtain ⟨actions, hstep, hevents, hcauses⟩ := h j
  refine ⟨actions, ⟨j.consume, mode', d'⟩, .single ?_, ⟨rfl, rfl, hrest⟩, hevents, hcauses⟩
  rw [step_of_peek hpeek]
  exact hstep

/-- A step that leaves what comes next, a character or the end of the input. -/
theorem leave (hsteady : mode.isHeld = true → f.steady = true) (hend : cs = [] → f.Ends)
    (h : ∀ input : Input, ∃ actions,
      stepOn g ⟨input, mode, d⟩ cs.head? = (actions, .running ⟨input, mode', d'⟩) ∧
        actionEvents actions = events ∧ actionCauses actions = causes) :
    Traverses f g ⟨mode, d, cs⟩ events causes ⟨mode', d', cs⟩ := by
  rintro ⟨input, m, document⟩ ⟨rfl, rfl, hinput⟩
  obtain ⟨j, hpeek, hkept⟩ := Feed.look_head hend hsteady hinput
  obtain ⟨actions, hstep, hevents, hcauses⟩ := h j
  refine ⟨actions, ⟨j, mode', d'⟩, .single ?_, ⟨rfl, rfl, hkept⟩, hevents, hcauses⟩
  rw [step_of_peek hpeek]
  exact hstep

/-- A step that takes the next character and does nothing else but change the mode and the text. -/
theorem take_quiet (hsteady : mode.isHeld = true → f.steady = true)
    (h : ∀ input : Input,
      stepOn g ⟨input, mode, d⟩ (some c) = ([], .running ⟨input.consume, mode', d'⟩)) :
    Traverses f g ⟨mode, d, c :: cs⟩ [] [] ⟨mode', d', cs⟩ :=
  take hsteady fun input => ⟨[], h input, rfl, rfl⟩

/-- A step that leaves what comes next and does nothing else but change the mode and the text. -/
theorem leave_quiet (hsteady : mode.isHeld = true → f.steady = true) (hend : cs = [] → f.Ends)
    (h : ∀ input : Input,
      stepOn g ⟨input, mode, d⟩ cs.head? = ([], .running ⟨input, mode', d'⟩)) :
    Traverses f g ⟨mode, d, cs⟩ [] [] ⟨mode', d', cs⟩ :=
  leave hsteady hend fun input => ⟨[], h input, rfl, rfl⟩

/-- Where each character of a kind is taken, and collected by the view, all of them are. -/
theorem collect (shown : List Char → List Char → View) (kind : Char → Prop)
    (h : ∀ seen c cs, kind c →
      Traverses f g (shown seen (c :: cs)) [] [] (shown (seen ++ [c]) cs))
    {chars : List Char} (hchars : ∀ c ∈ chars, kind c) (seen cs : List Char) :
    Traverses f g (shown seen (chars ++ cs)) [] [] (shown (seen ++ chars) cs) := by
  induction chars generalizing seen with
  | nil =>
    rw [List.append_nil]
    exact .refl _
  | cons c chars ih =>
    have hfirst := h seen c (chars ++ cs) (hchars c List.mem_cons_self)
    have hrest := ih (fun x hx => hchars x (List.mem_cons_of_mem c hx)) (seen ++ [c])
    rw [List.append_assoc] at hrest
    exact hfirst.after hrest

/-- Where each character of a kind is added to a text in the view, all of them are. -/
theorem collect_text (shown : String → List Char → View) (kind : Char → Prop)
    (h : ∀ text c cs, kind c →
      Traverses f g (shown text (c :: cs)) [] [] (shown (text.push c) cs))
    {chars : List Char} (hchars : ∀ c ∈ chars, kind c) (text : String) (cs : List Char) :
    Traverses f g (shown text (chars ++ cs)) [] [] (shown (text ++ String.ofList chars) cs) := by
  have hall := collect (fun seen cs => shown (text ++ String.ofList seen) cs) kind
    (fun seen c cs hc => by
      rw [String.ofList_append, ← String.append_assoc, ← String.singleton_eq_ofList,
        String.append_singleton]
      exact h _ c cs hc) hchars [] cs
  rwa [String.ofList_nil, String.append_empty, List.nil_append] at hall

/-- A name is collected from its first letter on. -/
theorem token (modeOf : String → Mode) (hmode : mode.isHeld = true → f.steady = true)
    (hheld : ∀ name, (modeOf name).isHeld = true → f.steady = true)
    (hstart : ∀ c input, isNameStart c = true → ∃ actions,
      stepOn g ⟨input, mode, d⟩ (some c) =
          (actions, .running ⟨input.consume, modeOf (String.singleton c), d⟩) ∧
        actionEvents actions = [] ∧ actionCauses actions = [])
    (hname : ∀ name c input, isNameChar c = true →
      stepOn g ⟨input, modeOf name, d⟩ (some c) =
        ([], .running ⟨input.consume, modeOf (name.push c), d⟩))
    {name : String} (htoken : isToken name = true) (cs : List Char) :
    Traverses f g ⟨mode, d, name.toList ++ cs⟩ [] [] ⟨modeOf name, d, cs⟩ := by
  obtain ⟨c, chars, hchars, hc, hrest⟩ := exists_of_isTokenList htoken
  have hfirst : Traverses f g ⟨mode, d, c :: (chars ++ cs)⟩ [] []
      ⟨modeOf (String.singleton c), d, chars ++ cs⟩ :=
    take hmode fun input => hstart c input hc
  have hothers : Traverses f g ⟨modeOf (String.singleton c), d, chars ++ cs⟩ [] []
      ⟨modeOf (String.singleton c ++ String.ofList chars), d, cs⟩ :=
    collect_text (fun name cs => ⟨modeOf name, d, cs⟩) _
      (fun name x _ hx => take_quiet (hheld name) fun input => hname name x input hx) hrest _ cs
  rw [← String.ofList_cons, ← hchars, String.ofList_toList] at hothers
  rw [hchars]
  exact hfirst.after hothers

end Traverses

/-! ## Text -/

/-- A character of text that nothing gives another meaning. -/
theorem traverses_text {place : Place} (hreference : c = '&' → place.honoursReferences = false)
    (hmarkup : c ≠ '<') (hreturn : c ≠ '\r') :
    Traverses f g ⟨.text place, d, c :: cs⟩ [] []
      ⟨.text place, d.append (String.singleton c), cs⟩ := by
  refine .take_quiet (steady_of_unheld rfl) fun input => ?_
  have hnot : ¬(c = '&' ∧ place.honoursReferences = true) := by
    rintro ⟨hc, hhonours⟩
    rw [hreference hc] at hhonours
    cases hhonours
  show stepText _ place (some c) = _
  simp only [stepText]
  rw [if_neg hnot, if_neg hmarkup, if_neg hreturn]
  rfl

/-! ## Names of tags -/

/-- The name of a start tag is collected. -/
theorem traverses_startTagName {name : String} (htoken : isToken name = true) :
    Traverses f g ⟨.text .content, d, '<' :: (name.toList ++ cs)⟩ [] []
      ⟨.startTagName name, d, cs⟩ := by
  have hmarkup : Traverses f g ⟨.text .content, d, '<' :: (name.toList ++ cs)⟩ [] []
      ⟨.markup, d, name.toList ++ cs⟩ :=
    .take_quiet (steady_of_unheld rfl) fun _ => rfl
  refine hmarkup.after (.token .startTagName (steady_of_unheld rfl)
    (fun _ => steady_of_unheld rfl) (fun c input hc => ⟨[.checkpoint], ?_, rfl, rfl⟩)
    (fun name c input hc => ?_) htoken cs)
  · have hne {x : Char} (hx : isNameChar x = false) : c ≠ x :=
      ne_of_isNameChar (isNameChar_of_isNameStart hc) hx
    show stepMarkup _ (some c) = _
    simp only [stepMarkup]
    rw [if_neg (hne (by decide)), if_neg (hne (by decide)), if_neg (hne (by decide)), if_pos hc]
    rfl
  · show stepStartTagName g _ name (some c) = _
    simp only [stepStartTagName]
    rw [if_pos hc]
    rfl

/-- The name of an end tag is read up to the character after it. -/
theorem traverses_endTagName {name : String} (htoken : isToken name = true)
    (hend : cs = [] → f.Ends) (hcs : ∀ c, cs.head? = some c → isNameChar c = false) :
    Traverses f g ⟨.text .content, d, '<' :: '/' :: (name.toList ++ cs)⟩ [] []
      ⟨.endTagRest (.fold name), d, cs⟩ := by
  have hmarkup : Traverses f g ⟨.text .content, d, '<' :: '/' :: (name.toList ++ cs)⟩ [] []
      ⟨.markup, d, '/' :: (name.toList ++ cs)⟩ :=
    .take_quiet (steady_of_unheld rfl) fun _ => rfl
  have hslash : Traverses f g ⟨.markup, d, '/' :: (name.toList ++ cs)⟩ [] []
      ⟨.endTag, d, name.toList ++ cs⟩ :=
    .take_quiet (steady_of_unheld rfl) fun _ => rfl
  have hname : Traverses f g ⟨.endTag, d, name.toList ++ cs⟩ [] [] ⟨.endTagName name, d, cs⟩ := by
    refine .token .endTagName (steady_of_unheld rfl) (fun _ => steady_of_unheld rfl)
      (fun c input hc => ⟨[.checkpoint], ?_, rfl, rfl⟩) (fun name c input hc => ?_) htoken cs
    · show stepEndTag _ (some c) = _
      simp only [stepEndTag]
      rw [if_pos hc]
      rfl
    · show stepEndTagName _ name (some c) = _
      simp only [stepEndTagName]
      rw [if_pos hc]
      rfl
  refine ((hmarkup.after hslash).after hname).after
    (.leave_quiet (steady_of_unheld rfl) hend fun input => ?_)
  show stepEndTagName _ name cs.head? = _
  cases hnext : cs.head? with
  | none => rfl
  | some c =>
    simp only [stepEndTagName]
    rw [if_neg (Bool.eq_false_iff.1 (hcs c hnext))]
    rfl

/-! ## The end of the input -/

/-- At the end of the input the document is finished. -/
theorem exists_finish {s : State} {place : Place}
    (h : s.Displays (.before []) ⟨.text place, d, []⟩) :
    ∃ line, run g s = ⟨(d.finish line).2, .finished⟩ := by
  have hheld : s.mode.isHeld = false := congrArg Mode.isHeld h.mode
  obtain ⟨j, hpeek, -⟩ := Feed.ends_before false s.input Bool.noConfusion h.input
  rw [← hheld] at hpeek
  refine ⟨j.line, run_of_stopped ?_⟩
  rw [step_of_peek hpeek, h.mode, h.document]
  rfl

end Markup.Reader
