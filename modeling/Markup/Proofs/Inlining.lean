import Markup.Proofs.Reader.EntityReferences
import Markup.Proofs.Reader.Lockstep
import Markup.Proofs.Session.Alike

/-!
# Replacement text is read like inline text

A reference to an entity whose replacement text holds no ampersand may be replaced by that text,
whatever markup the text holds, begins or ends (`inline_replacement`). The proof compares two
readings step by step. As long as the text lasts, one takes its characters from an expansion and the
other from the source (`Inlines.inside`); at the next look after its end the expansion is dropped,
and the inputs are the same apart from lines (`Input.Same`). No reference is read inside the text,
because one begins with an ampersand, so the input is not held and no entity is expanded there.
-/

namespace Markup

namespace Input

/-- Two inputs are the same apart from lines and from being held. -/
structure Same (i i' : Input) : Prop where
  /-- The same reads are left of the sources. -/
  source : i.source = i'.source
  /-- The same expansions are above them. -/
  expansions : i.expansions = i'.expansions
  /-- The same character is put back. -/
  pushback : i.pushback = i'.pushback
  /-- Entities nest within the same limit. -/
  maxDepth : i.maxDepth = i'.maxDepth

variable {i i' : Input}

/-- Inputs that are the same stay so when both take a character, or neither does. -/
theorem Same.after (h : i.Same i') (takes : Bool) : (i.after takes).Same (i'.after takes) := by
  cases takes with
  | false => exact h
  | true =>
    refine ⟨?_, ?_, ?_, ?_⟩
    · simp only [after_true, source_consume, h.source]
    · simp only [after_true, expansions_consume, h.expansions]
    · simp only [after_true, pushback_consume]
    · simp only [after_true, maxDepth_consume, h.maxDepth]

/-- Looks find the same where nothing is put back and the same reads are left, and make the inputs
the same. -/
theorem same_peek (hpushback : i.pushback = none) (hpushback' : i'.pushback = none)
    (hlive : i.liveExpansions = i'.liveExpansions) (hsource : i.source = i'.source)
    (hmaxDepth : i.maxDepth = i'.maxDepth) :
    ∃ r j j', i.peek = (r, j) ∧ i'.peek = (r, j') ∧ j.Same j' := by
  rw [peek_of_no_pushback hpushback, peek_of_no_pushback hpushback', ← hlive, ← hsource]
  cases takeFirst i.liveExpansions with
  | some p => exact ⟨_, _, _, rfl, rfl, ⟨rfl, rfl, rfl, hmaxDepth⟩⟩
  | none =>
    have hnone : i.pushback = i'.pushback := hpushback.trans hpushback'.symm
    cases i.source with
    | nil => exact ⟨_, _, _, rfl, rfl, ⟨rfl, rfl, hnone, hmaxDepth⟩⟩
    | cons item source =>
      cases item with
      | error failure => exact ⟨_, _, _, rfl, rfl, ⟨rfl, rfl, hnone, hmaxDepth⟩⟩
      | ok c => exact ⟨_, _, _, rfl, rfl, ⟨rfl, rfl, rfl, hmaxDepth⟩⟩

/-- Looks at inputs that are the same find the same. -/
theorem Same.peek (h : i.Same i') (hholding : i.holding = i'.holding) :
    ∃ r j j', i.peek = (r, j) ∧ i'.peek = (r, j') ∧ j.Same j' := by
  cases hp : i.pushback with
  | some c =>
    exact ⟨_, i, i', peek_of_pushback hp, peek_of_pushback (h.pushback ▸ hp), h⟩
  | none =>
    refine same_peek hp (h.pushback ▸ hp) ?_ h.source h.maxDepth
    unfold liveExpansions
    rw [hholding, h.expansions]

/-- An entity is expanded in both of two inputs that are the same, or refused in both for the same
reason. -/
theorem Same.pushEntity (h : i.Same i') (name text : String) :
    (∃ j j', i.pushEntity name text = .ok j ∧ i'.pushEntity name text = .ok j' ∧ j.Same j') ∨
      ∃ refusal, i.pushEntity name text = .error refusal ∧
        i'.pushEntity name text = .error refusal := by
  unfold Input.pushEntity depth
  rw [h.expansions, h.maxDepth, h.pushback]
  split
  · exact .inr ⟨_, rfl, rfl⟩
  · split
    · exact .inr ⟨_, rfl, rfl⟩
    · exact .inl ⟨_, _, rfl, rfl, ⟨h.source, rfl, rfl, rfl⟩⟩

end Input

namespace Reader

/-- Two inputs hold the same characters in a mode: the first may have some of them in an expansion
where the second has them in its source. -/
inductive Inlines (mode : Mode) (i i' : Input) : Prop
  /-- They hold them alike. -/
  | outside : i.Same i' → Inlines mode i i'
  /-- The first has some of them in an expansion, and the next step does not hold the input. -/
  | inside {name : String} {rest : List Char} : mode.isHeld = false →
      i.expansions = [⟨some name, rest⟩] → i'.expansions.dropWhile (·.rest.isEmpty) = [] →
      i'.source = rest.map .ok ++ i.source → '&' ∉ rest → i.pushback = i'.pushback →
      i.pushback ≠ some '&' → i.maxDepth = i'.maxDepth → Inlines mode i i'

variable {g : Grammar} {s s' : State} {mode mode' : Mode} {i i' : Input}

/-- Looks at both inputs find the same. -/
theorem Inlines.peek (h : Inlines mode i i') :
    ∃ r j j', (i.hold mode.isHeld).peek = (r, j) ∧ (i'.hold mode.isHeld).peek = (r, j') ∧
      Inlines mode j j' := by
  cases h with
  | outside hsame =>
    have hhold : (i.hold mode.isHeld).Same (i'.hold mode.isHeld) :=
      ⟨hsame.source, hsame.expansions, hsame.pushback, hsame.maxDepth⟩
    obtain ⟨r, j, j', hj, hj', hrest⟩ := hhold.peek rfl
    exact ⟨r, j, j', hj, hj', .outside hrest⟩
  | @inside name rest hheld hexpansions hfinished hsource hplain hpushback hne hmax =>
    rw [hheld]
    cases hp : i.pushback with
    | some c =>
      have hp' : i'.pushback = some c := hpushback ▸ hp
      exact ⟨_, i.hold false, i'.hold false, Input.peek_of_pushback hp, Input.peek_of_pushback hp',
        .inside hheld hexpansions hfinished hsource hplain hpushback hne hmax⟩
    | none =>
      have hp' : i'.pushback = none := hpushback ▸ hp
      have hlive' : (i'.hold false).liveExpansions = [] := hfinished
      rw [Input.peek_of_no_pushback (i := i.hold false) hp,
        Input.peek_of_no_pushback (i := i'.hold false) hp', hlive']
      cases rest with
      | cons c rest =>
        -- the first input takes from its expansion what the second one takes from its source
        have hlive : (i.hold false).liveExpansions = [⟨some name, c :: rest⟩] := by
          show i.expansions.dropWhile _ = _
          rw [hexpansions]
          rfl
        have hc : some c ≠ some '&' := by
          rintro heq
          cases heq
          exact hplain List.mem_cons_self
        have hsource' : (i'.hold false).source = .ok c :: (rest.map .ok ++ i.source) := hsource
        rw [hlive, hsource']
        exact ⟨_, _, _, rfl, rfl, .inside hheld rfl rfl rfl
          (fun hmem => hplain (List.mem_cons_of_mem _ hmem)) rfl hc hmax⟩
      | nil =>
        have hlive : (i.hold false).liveExpansions = [] := by
          show i.expansions.dropWhile _ = _
          rw [hexpansions]
          rfl
        have hsource' : (i'.hold false).source = (i.hold false).source := hsource
        rw [hlive, hsource']
        cases (i.hold false).source with
        | nil => exact ⟨_, _, _, rfl, rfl, .outside ⟨rfl, rfl, hpushback, hmax⟩⟩
        | cons item source =>
          cases item with
          | error failure => exact ⟨_, _, _, rfl, rfl, .outside ⟨rfl, rfl, hpushback, hmax⟩⟩
          | ok c => exact ⟨_, _, _, rfl, rfl, .outside ⟨rfl, rfl, rfl, hmax⟩⟩

/-- An input stays inlined when both take a character, or neither does. -/
theorem Inlines.after (h : Inlines mode i i') (takes : Bool)
    (hheld : mode'.isHeld = true → mode.isHeld = true ∨ i.pushback = some '&') :
    Inlines mode' (i.after takes) (i'.after takes) := by
  cases h with
  | outside hsame => exact .outside (hsame.after takes)
  | inside hmode hexpansions hfinished hsource hplain hpushback hne hmax =>
    have hmode' : mode'.isHeld = false := by
      rw [← Bool.not_eq_true]
      intro hheld'
      rcases hheld hheld' with hheld' | hampersand
      · rw [hmode] at hheld'
        cases hheld'
      · exact hne hampersand
    cases takes with
    | false => exact .inside hmode' hexpansions hfinished hsource hplain hpushback hne hmax
    | true =>
      refine .inside hmode' (by simpa using hexpansions) (by simpa using hfinished)
        (by simpa using hsource) hplain (by simp) (by simp) (by simpa using hmax)

/-- Two states are alike and their inputs hold the same characters. -/
structure State.Inlines (s s' : State) : Prop where
  /-- They are in the same mode. -/
  mode : s.mode = s'.mode
  /-- They have read the same document. -/
  document : s.document = s'.document
  /-- Their inputs hold the same characters. -/
  input : Reader.Inlines s.mode s.input s'.input

/-- An entity is expanded, or refused, in both of two states. -/
theorem matches_expand {place : Place} {m : Mode} {d : Document} {name text : String}
    (h : i.Same i') :
    Matches State.Inlines (State.expand ⟨i, m, d⟩ place name text)
      (State.expand ⟨i', m, d⟩ place name text) := by
  unfold State.expand
  rcases h.pushEntity name text with ⟨j, j', hj, hj', hsame⟩ | ⟨refusal, hi, hi'⟩
  · simp only [hj, hj']
    exact .goes rfl ⟨rfl, rfl, .outside hsame⟩
  · simp only [hi, hi']
    exact .goes rfl ⟨rfl, rfl, .outside h⟩

/-- Steps in the same mode and with the same document match if their looks find the same. -/
theorem matches_of_peek {r : Except ReadFailure (Option Char)} {j j' : Input}
    (hmode : s.mode = s'.mode) (hdocument : s.document = s'.document)
    (hpeek : (s.input.hold s.mode.isHeld).peek = (r, j))
    (hpeek' : (s'.input.hold s.mode.isHeld).peek = (r, j')) (hinlines : Inlines s.mode j j') :
    Matches State.Inlines (step g s) (step g s') := by
  rw [hmode] at hpeek'
  cases r with
  | error failure =>
    unfold step
    rw [hpeek, hpeek']
    exact .stops rfl
  | ok c? =>
    rw [step_of_peek hpeek, step_of_peek hpeek', ← hmode, ← hdocument]
    have hparallel := parallel_stepOn g j j' s.mode s.document c?
    generalize stepOn g ⟨j, s.mode, s.document⟩ c? = move at hparallel ⊢
    generalize stepOn g ⟨j', s.mode, s.document⟩ c? = move' at hparallel ⊢
    cases hparallel with
    | stops _ _ heffects => exact .stops heffects
    | @goes _ _ _ _ takes _ hheld heffects =>
      refine .goes heffects ⟨rfl, rfl, hinlines.after takes fun hmode => ?_⟩
      rcases hheld hmode with hheld | ⟨-, rfl⟩
      · exact .inl hheld
      · exact .inr (Input.pushback_of_peek hpeek)
    | @expands _ _ _ takes _ hname _ =>
      cases hinlines with
      | outside hsame => exact matches_expand (hsame.after takes)
      | inside hmode =>
        -- the name of an entity is read while the input is held
        rw [show s.mode = _ from hname] at hmode
        cases hmode

/-- States whose inputs hold the same characters step alike. -/
theorem matches_step (h : s.Inlines s') : Matches State.Inlines (step g s) (step g s') := by
  obtain ⟨r, j, j', hpeek, hpeek', hinlines⟩ := h.input.peek
  exact matches_of_peek h.mode h.document hpeek hpeek' hinlines

/-! ## The reference and its text -/

/-- The state with another source below its expansions. -/
def State.over (s : State) (source : Source) : State :=
  { s with input := { s.input with source } }

/-- A look outside references drops all expansions that have been read to their end. -/
theorem expansions_looked (hheld : s.mode.isHeld = false) (hpushback : s.input.pushback = none)
    (hfinished : s.input.expansions.dropWhile (·.rest.isEmpty) = []) :
    s.looked.expansions = [] := by
  have hlive : (s.input.hold false).liveExpansions = [] := hfinished
  unfold State.looked
  rw [hheld, Input.peek_of_no_pushback (i := s.input.hold false) hpushback, hlive]
  cases (s.input.hold false).source with
  | nil => rfl
  | cons item source => cases item <;> rfl

section

variable {place : Place} {name : String} {entity : Entity}

/-- The reference is read up to a state in which its replacement text comes next, and no other
expansion is left. -/
theorem reaches_inlined (rest : Source) (hmode : s.mode = .text place)
    (hplace : place.honoursReferences = true) (hpushback : s.input.pushback = none)
    (hfinished : expansionsText s.input.expansions = []) (hlimit : 1 ≤ s.input.maxDepth)
    (hname : isToken name = true) (hspace : g.dialect.spaceEntity ≠ some name)
    (hentity : g.dtd.entity? name = some entity) (hplain : '&' ∉ entity.replacement.toList) :
    ∃ t, Reaches g (s.over (.ofText ("&" ++ name ++ ";") ++ rest))
        [.note ("expanding entity &" ++ name ++ ";")] t ∧
      t.Inlines (s.over (.ofText entity.replacement ++ rest)) := by
  have hdrop := dropWhile_of_expansionsText hfinished
  generalize hstart : s.over (.ofText ("&" ++ name ++ ";") ++ rest) = u
  have hlooked : u.looked.expansions = [] := by
    subst hstart
    exact expansions_looked (congrArg Mode.isHeld hmode) hpushback hdrop
  have hnames : u.looked.openNames = [] := congrArg openNames hlooked
  have hup : u.input.upcoming = .ok '&' :: (name.toList.map .ok ++ .ok ';' :: rest) := by
    subst hstart
    simp [State.over, Input.upcoming, hpushback, hfinished, Source.ofText]
  have hend : Source.EndsName (.ok ';' :: rest) := rfl
  obtain ⟨j, t, hreach, htmode, htdocument, hpush, hentities, hmax, hjup, hjpushback⟩ :=
    reaches_expansion (g := g) (s := u) (by subst hstart; exact hmode) hplace hname hend hup hspace
      hentity (by rw [hnames]; exact List.not_mem_nil)
      (by rw [hnames]; subst hstart; exact hlimit)
  -- the semicolon has been taken, so all that is left is in the source
  have hjnone : j.pushback = none := hjpushback rest rfl
  have hjexpansions : j.expansions = [] := by
    rw [hlooked] at hentities
    exact List.map_eq_nil_iff.1 hentities
  have hjsource : j.source = rest := by
    have hrest : j.upcoming = rest := hjup
    simpa [Input.upcoming, hjnone, hjexpansions, expansionsText] using hrest
  have htinput := Input.eq_of_pushEntity hpush
  have htexpansions : t.input.expansions = [⟨some name, entity.replacement.toList⟩] := by
    rw [htinput]
    simp [Input.covered, hjnone, hjexpansions]
  have htnone : t.input.pushback = none := by rw [htinput]
  refine ⟨t, hreach, htmode.trans hmode.symm, ?_, .inside ?_ htexpansions hdrop ?_ hplain ?_ ?_ ?_⟩
  · rw [htdocument, ← hstart]
    rfl
  · rw [htmode]
    rfl
  · rw [htinput, hjsource]
    rfl
  · rw [htnone]
    exact hpushback.symm
  · rw [htnone]
    exact (Option.some_ne_none _).symm
  · rw [htinput, hmax, ← hstart]
    rfl

/-- A reference in text to an entity without ampersands in its replacement text is read like that
text: where the text of all expansions has been read and nothing is put back, listeners of every
kind receive the same, reading ends in the same way and the same problems are recorded, whatever
comes after. -/
theorem inline_replacement (rest : Source) (hmode : s.mode = .text place)
    (hplace : place.honoursReferences = true) (hpushback : s.input.pushback = none)
    (hfinished : expansionsText s.input.expansions = []) (hlimit : 1 ≤ s.input.maxDepth)
    (hname : isToken name = true) (hspace : g.dialect.spaceEntity ≠ some name)
    (hentity : g.dtd.entity? name = some entity) (hplain : '&' ∉ entity.replacement.toList) :
    (run g (s.over (.ofText ("&" ++ name ++ ";") ++ rest))).Alike
        (run g (s.over (.ofText entity.replacement ++ rest))) ∧
      ∀ (α : Type) [Listener α] (session : Session α),
        (session.performTrace (run g (s.over (.ofText ("&" ++ name ++ ";") ++ rest)))).1.Alike
            (session.performTrace (run g (s.over (.ofText entity.replacement ++ rest)))).1 ∧
          (session.performTrace (run g (s.over (.ofText ("&" ++ name ++ ";") ++ rest)))).2 =
            (session.performTrace (run g (s.over (.ofText entity.replacement ++ rest)))).2 := by
  obtain ⟨t, hreach, hinlines⟩ := reaches_inlined (g := g) rest hmode hplace hpushback hfinished
    hlimit hname hspace hentity hplain
  have hrest := run_alike (g := g) (R := State.Inlines) (fun s s' => matches_step) hinlines
  have halike : (run g (s.over (.ofText ("&" ++ name ++ ";") ++ rest))).Alike
      (run g (s.over (.ofText entity.replacement ++ rest))) := by
    rw [hreach.run_eq]
    exact ⟨hrest.effects, hrest.outcome⟩
  exact ⟨halike, fun α _ session => session.performTrace_alike halike⟩

/-- An entity whose replacement text stops inside the value of an attribute. -/
def halfTag : Grammar where
  dtd := ((Dtd.ofRoot "P").addElement (.ofName "P" .pcdata)).addEntity ⟨"e", "<P A='1"⟩
  dialect := .html

/-- The source goes on with the value in which the replacement text stops. -/
theorem inline_replacement_tag :
    (halfTag.dtd.entity? "e" = some ⟨"e", "<P A='1"⟩ ∧
        (run halfTag ((State.start halfTag []).over
          (.ofText ("&" ++ "e" ++ ";") ++ .ofText "2'>x</P>"))).events =
          [.startTag (.ofName "P" .pcdata) (.ofList [⟨"A", "12"⟩]), .characterData "x" false,
            .endTag (.ofName "P" .pcdata), .finished]) ∧
      (run halfTag ((State.start halfTag []).over
          (.ofText ("&" ++ "e" ++ ";") ++ .ofText "2'>x</P>"))).Alike
        (run halfTag ((State.start halfTag []).over
          (.ofText "<P A='1" ++ .ofText "2'>x</P>"))) := by
  have hentity : halfTag.dtd.entity? "e" = some ⟨"e", "<P A='1"⟩ := by decide +kernel
  refine ⟨⟨hentity, ?_⟩, ?_⟩
  · apply shows_of_runWithin (n := 60)
    decide +kernel
  · exact (inline_replacement (.ofText "2'>x</P>") rfl rfl rfl rfl (by decide) (by decide +kernel)
      (by decide) hentity (by decide +kernel)).1

end

end Reader

end Markup
