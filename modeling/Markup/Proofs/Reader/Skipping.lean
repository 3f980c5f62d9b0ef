import Markup.Proofs.Inlining
import Markup.Proofs.Reader.Traversal

/-!
# Passing over characters

`PassesOver g d mode cs causes mode' cs'` says that the reader gets from `mode`, with the characters
`cs` to come, to `mode'` with `cs'` to come, that it delivers nothing on the way and leaves the
document `d` as it is, and that the problems it reports have these causes. What comes after the
characters does not matter, nor which of them stand in expansions: they are traversed above every
input (`passesOver_iff_traverses`).

As in `Reads`, a step takes the next character or leaves it. A mode that stays the same, or only
collects a name, is passed over at once (`PassesOver.all`).
-/

namespace Markup.Reader

/-- The state is in a mode with a document, and its input gives characters before `k`. -/
structure State.Gives (s : State) (mode : Mode) (d : Document) (cs : List Char) (k : Input) :
    Prop where
  /-- It is in the mode. -/
  mode : s.mode = mode
  /-- It has read the document. -/
  document : s.document = d
  /-- The characters come next. -/
  input : k.Gives cs s.input

/-- The reader passes over characters, with these problems. -/
def PassesOver (g : Grammar) (d : Document) (mode : Mode) (cs : List Char)
    (causes : List IssueCause) (mode' : Mode) (cs' : List Char) : Prop :=
  ∀ (s : State) (k : Input), s.Gives mode d cs k → ∃ actions t, Reaches g s actions t ∧
    t.Gives mode' d cs' k ∧ actionEvents actions = [] ∧ actionCauses actions = causes

variable {g : Grammar} {d : Document} {mode mode' mode'' : Mode} {c : Char}
  {cs cs' cs'' : List Char} {causes others : List IssueCause}

/-- What is passed over is traversed above every input, without an event. -/
theorem passesOver_iff_traverses :
    PassesOver g d mode cs causes mode' cs' ↔
      ∀ k, Traverses (.above k) g ⟨mode, d, cs⟩ [] causes ⟨mode', d, cs'⟩ := by
  have hgives (s : State) (k : Input) (m : Mode) (ahead : List Char) :
      s.Gives m d ahead k ↔ s.Displays (.above k) ⟨m, d, ahead⟩ :=
    ⟨fun h => ⟨h.mode, h.document, h.input⟩, fun h => ⟨h.mode, h.document, h.input⟩⟩
  simp only [PassesOver, Traverses, hgives]
  exact ⟨fun h k s => h s k, fun h s k => h k s⟩

/-! ## Going on above an input -/

/-- A state whose input is level with that of another one is read like it. -/
theorem run_alike_of_level {t u : State} (hmode : t.mode = u.mode)
    (hdocument : t.document = u.document) (hheld : u.mode.isHeld = false)
    (hlevel : t.input.Level u.input) : (run g t).Alike (run g u) := by
  -- the next look drops what the two inputs still differ in
  have hpeeks : ∃ r j j', (t.input.hold false).peek = (r, j) ∧
      (u.input.hold false).peek = (r, j') ∧ j.Same j' :=
    Input.same_peek hlevel.pushback hlevel.pushback' hlevel.expansions hlevel.source
      hlevel.maxDepth
  obtain ⟨r, j, j', hpeek, hpeek', hsame⟩ := hpeeks
  rw [← hheld, ← hmode] at hpeek hpeek'
  exact run_alike_of_matches (fun _ _ => run_alike fun _ _ => matches_step)
    (matches_of_peek hmode hdocument hpeek hpeek' (.outside hsame))

/-- A run over characters that are traversed goes on like a run without them. -/
theorem Traverses.exists_run {s : State} {rest : Source} {d' : Document} {events : List Event}
    (h : Traverses (.above (s.input.skip cs.length)) g ⟨mode, s.document, cs⟩ events causes
      ⟨mode', d', []⟩) (hmode : s.mode = mode) (hheld : mode'.isHeld = false)
    (hpushback : s.input.pushback = none) (hup : s.input.upcoming = cs.map .ok ++ rest) :
    ∃ actions t, Reaches g s actions t ∧ actionEvents actions = events ∧
      actionCauses actions = causes ∧
      (run g t).Alike (run g ⟨s.input.skip cs.length, mode', d'⟩) := by
  obtain ⟨actions, t, hreach, ht, hevents, hcauses⟩ :=
    h s ⟨hmode, rfl, Input.gives_skip hpushback hup⟩
  exact ⟨actions, t, hreach, hevents, hcauses,
    run_alike_of_level ht.mode ht.document hheld ht.input⟩

namespace PassesOver

/-- Passing over nothing. -/
theorem refl (mode : Mode) (cs : List Char) : PassesOver g d mode cs [] mode cs :=
  passesOver_iff_traverses.2 fun _ => .refl _

/-- Passing over one thing and then another reports the problems of both. -/
theorem trans (h : PassesOver g d mode cs causes mode' cs')
    (h' : PassesOver g d mode' cs' others mode'' cs'') :
    PassesOver g d mode cs (causes ++ others) mode'' cs'' :=
  passesOver_iff_traverses.2 fun k =>
    (passesOver_iff_traverses.1 h k).trans (passesOver_iff_traverses.1 h' k)

/-- More is passed over after characters that are no problem. -/
theorem after (h : PassesOver g d mode cs [] mode' cs')
    (h' : PassesOver g d mode' cs' causes mode'' cs'') :
    PassesOver g d mode cs causes mode'' cs'' :=
  h.trans h'

/-- More is passed over that is no problem. -/
theorem before (h : PassesOver g d mode cs causes mode' cs')
    (h' : PassesOver g d mode' cs' [] mode'' cs'') : PassesOver g d mode cs causes mode'' cs'' := by
  have hboth := h.trans h'
  rwa [List.append_nil] at hboth

/-- A step that takes the next character. -/
theorem take (hheld : mode.isHeld = false)
    (h : ∀ input : Input, ∃ actions,
      stepOn g ⟨input, mode, d⟩ (some c) = (actions, .running ⟨input.consume, mode', d⟩) ∧
        actionEvents actions = [] ∧ actionCauses actions = causes) :
    PassesOver g d mode (c :: cs) causes mode' cs :=
  passesOver_iff_traverses.2 fun _ => .take (steady_of_unheld hheld) h

/-- A step that leaves the next character. -/
theorem leave (hheld : mode.isHeld = false)
    (h : ∀ input : Input, ∃ actions,
      stepOn g ⟨input, mode, d⟩ (some c) = (actions, .running ⟨input, mode', d⟩) ∧
        actionEvents actions = [] ∧ actionCauses actions = causes) :
    PassesOver g d mode (c :: cs) causes mode' (c :: cs) :=
  passesOver_iff_traverses.2 fun _ => .leave (steady_of_unheld hheld) Feed.ends_of_cons h

/-- A step that takes the next character and does nothing else but change the mode. -/
theorem take_quiet (hheld : mode.isHeld = false)
    (h : ∀ input : Input,
      stepOn g ⟨input, mode, d⟩ (some c) = ([], .running ⟨input.consume, mode', d⟩)) :
    PassesOver g d mode (c :: cs) [] mode' cs :=
  take hheld fun input => ⟨[], h input, rfl, rfl⟩

/-- A step that leaves the next character and does nothing else but change the mode. -/
theorem leave_quiet (hheld : mode.isHeld = false)
    (h : ∀ input : Input,
      stepOn g ⟨input, mode, d⟩ (some c) = ([], .running ⟨input, mode', d⟩)) :
    PassesOver g d mode (c :: cs) [] mode' (c :: cs) :=
  leave hheld fun input => ⟨[], h input, rfl, rfl⟩

/-- Where each character of a kind is taken, and collected by the mode, all of them are. -/
theorem all (modeOf : String → Mode) (kind : Char → Prop)
    (hheld : ∀ seen, (modeOf seen).isHeld = false)
    (h : ∀ seen c input, kind c →
      stepOn g ⟨input, modeOf seen, d⟩ (some c) =
        ([], .running ⟨input.consume, modeOf (seen.push c), d⟩))
    {chars : List Char} (hchars : ∀ c ∈ chars, kind c) (seen : String) :
    PassesOver g d (modeOf seen) (chars ++ cs) [] (modeOf (seen ++ String.ofList chars)) cs :=
  passesOver_iff_traverses.2 fun _ =>
    .collect_text (fun seen cs => ⟨modeOf seen, d, cs⟩) kind
      (fun seen c _ hc =>
        .take_quiet (steady_of_unheld (hheld seen)) fun input => h seen c input hc)
      hchars seen cs

end PassesOver

end Markup.Reader
