import Markup.Proofs.Reader.LineEnds
import Markup.Proofs.Session.Alike
import Markup.Proofs.Session.Passive

/-!
# Line ends do not matter

A document is read like the one with all its line ends written as line feeds, provided that no
replacement text holds a carriage return (`parse_unifyLineEnds`). The proof reads both side by side.
Where one comes to a carriage return the other comes to a line feed; a line feed after the return is
taken by the first reading alone, which so catches up with the other (`State.Unifies.catchesUp`).
-/

namespace Markup

namespace Reader

/-- Two states are alike, but for the line ends in the characters to come. -/
structure State.Unifies (g : Grammar) (s s' : State) : Prop where
  /-- They are in the same mode. -/
  mode : s'.mode = s.mode
  /-- They have read the same document. -/
  document : s'.document = s.document
  /-- The mode keeps no carriage return in mind. -/
  steady : s.mode.Steady
  /-- The second state is sound. -/
  sound : s'.Sound g
  /-- The next looks find what belongs together. -/
  looks : (s.input.hold s.mode.isHeld).Looks (s'.input.hold s.mode.isHeld)

variable {g : Grammar} {s s' u t' : State} {i i' : Input} {mode next : Mode} {d d' : Document}

/-- No replacement text has a carriage return. -/
def WithoutReturns (d : Dtd) : Prop :=
  ∀ entity ∈ d.entities.items, '\r' ∉ entity.replacement.toList

instance (d : Dtd) : Decidable (WithoutReturns d) :=
  inferInstanceAs (Decidable (∀ entity ∈ d.entities.items, '\r' ∉ entity.replacement.toList))

/-! ## Moves that match -/

/-- Steps that decide the same lead to states that are alike again, if their inputs are. -/
theorem matches_parallel {c? : Option Char} {move move' : Move} (hdtd : WithoutReturns g.dtd)
    (hparallel : Parallel g ⟨i, mode, d⟩ i' c? move move')
    (hafter : ∀ takes, (takes = true → c?.isSome = true) →
      (i.after takes).Unifies (i'.after takes))
    (hsteady : LeadsSteady move)
    (hsound : ∀ actions t', move' = (actions, .running t') → t'.Sound g) :
    Matches (State.Unifies g) move move' := by
  cases hparallel with
  | stops _ _ heffects => exact .stops heffects
  | @goes _ _ _ _ takes htakes _ heffects =>
    exact .goes heffects ⟨rfl, rfl, hsteady, hsound _ _ rfl,
      ((hafter takes htakes).hold _).peek rfl⟩
  | @expands place name entity takes htakes _ hentity =>
    have htext := hdtd entity (Registry.find?_eq_some hentity).1
    unfold State.expand at hsound ⊢
    rcases (hafter takes htakes).pushEntity name entity.replacement htext with
      ⟨j, j', hj, hj', hunifies⟩ | ⟨refusal, hi, hi'⟩
    · simp only [hj, hj'] at hsound ⊢
      exact .goes rfl ⟨rfl, rfl, trivial, hsound _ _ rfl, (hunifies.hold _).peek rfl⟩
    · simp only [hi, hi'] at hsound ⊢
      exact .goes rfl ⟨rfl, rfl, trivial, hsound _ _ rfl,
        ((hafter takes htakes).hold _).peek rfl⟩

/-! ## After a carriage return -/

/-- The first of two states catches up with the second without a step of the second. -/
def Joins (g : Grammar) (u t' : State) : Prop :=
  (∃ t, Reaches g u [] t ∧ t.Unifies g t') ∨ (run g u).Alike (run g t')

/-- A step of both to states that join. -/
theorem CatchesUp.of_joins (hs : step g s = ([], .running u)) (hs' : step g s' = ([], .running t'))
    (h : Joins g u t') : CatchesUp g (State.Unifies g) s s' := by
  rcases h with ⟨t, hreach, hunifies⟩ | halike
  · exact .goes ((Reaches.single hs).trans hreach) hs' rfl hunifies
  · apply CatchesUp.ends
    rw [(Reaches.single hs).run_eq, (Reaches.single hs').run_eq]
    exact alike_prepend halike rfl

/-- A mode that passes over line ends passes over a line feed after a carriage return. -/
theorem joins_of_passes (hmode : mode.passes = true) (h : i.Returns i')
    (hsound : State.Sound g ⟨i', mode.passed, d⟩) :
    Joins g ⟨i, mode.passed, d⟩ ⟨i', mode.passed, d⟩ := by
  have hpasses := passes_passed hmode
  have hheld := isHeld_of_passes hpasses
  left
  rcases h.looks with ⟨j, hpeek, hlooks⟩ | ⟨-, hlooks⟩
  · have hstep : step g ⟨i, mode.passed, d⟩ = ([], .running ⟨j.consume, mode.passed, d⟩) := by
      rw [step_of_peek (by rw [hheld]; exact hpeek), stepOn_passes hpasses (.inr rfl),
        passed_passed]
    exact ⟨_, .single hstep, rfl, rfl, steady_of_passes hpasses, hsound,
      by rw [hheld]; exact hlooks⟩
  · exact ⟨_, .refl _, rfl, rfl, steady_of_passes hpasses, hsound, by rw [hheld]; exact hlooks⟩

/-- A mode that keeps a carriage return in mind takes a line feed after it and leaves anything
else. -/
theorem joins_of_return
    (hstep : ∀ i c?, stepOn g ⟨i, mode, d⟩ c? =
      ([], .running ⟨if c? = some '\n' then i.consume else i, next, d'⟩))
    (hmode : mode.isHeld = false) (hnext : next.isHeld = false) (hsteady : next.Steady)
    (h : i.Returns i') (hsound : State.Sound g ⟨i', next, d'⟩) :
    Joins g ⟨i, mode, d⟩ ⟨i', next, d'⟩ := by
  have hlook {j : Input} {c? : Option Char} (hpeek : (i.hold false).peek = (.ok c?, j)) :
      step g ⟨i, mode, d⟩ =
        ([], .running ⟨if c? = some '\n' then j.consume else j, next, d'⟩) := by
    rw [step_of_peek (by rw [hmode]; exact hpeek), hstep]
  rcases h.looks with ⟨j, hpeek, hlooks⟩ | ⟨hne, hlooks⟩
  · exact .inl ⟨_, .single (hlook hpeek), rfl, rfl, hsteady, hsound, by rw [hnext]; exact hlooks⟩
  · obtain ⟨r, j, j', hpeek, hpeek', hunifies⟩ := hlooks
    cases r with
    | error failure =>
      right
      have hfails : step g ⟨i, mode, d⟩ = ([], .stopped (.failed failure)) := by
        unfold step
        rw [hmode, hpeek]
      have hfails' : step g ⟨i', next, d'⟩ = ([], .stopped (.failed failure)) := by
        unfold step
        rw [hnext, hpeek']
        rfl
      rw [run_of_stopped hfails, run_of_stopped hfails']
      exact ⟨rfl, rfl⟩
    | ok c? =>
      have hc : c? ≠ some '\n' := by
        rintro rfl
        exact hne (congrArg Prod.fst hpeek)
      have hmove := hlook hpeek
      rw [if_neg hc] at hmove
      refine .inl ⟨_, .single hmove, rfl, rfl, hsteady, hsound, ?_⟩
      rw [hnext]
      exact ⟨.ok c?, j, j', Input.peek_hold_of_peek hpeek, hpeek', hunifies⟩

/-! ## One step -/

/-- In what may be the end tag of raw text no line end is looked for. -/
theorem leaves_of_sound {e : Element} {expected : List Char} {seen : String} (hs : s.Sound g)
    (hmode : s.mode = .rawEndTag e expected seen) :
    Mode.leaves (.rawEndTag e expected seen) = true := by
  obtain ⟨hplace, spelling, -, hspelling⟩ := hs.fits hmode
  have htoken := isToken_of_raw hs.elements hplace
  have hname (x : Char) (hx : x ∈ expected) : isNameChar x.toUpper = true := by
    have hmem : x.toUpper ∈ e.name.text.toList.map Char.toUpper := by
      rw [← hspelling]
      exact List.mem_map_of_mem (List.mem_append_right _ hx)
    obtain ⟨y, hy, hxy⟩ := List.mem_map.1 hmem
    rw [← hxy, isNameChar_toUpper]
    exact isNameChar_of_mem_token htoken hy
  refine List.all_eq_true.2 fun x hx => ?_
  have hx' := hname x hx
  rw [Bool.and_eq_true, bne_iff_ne, bne_iff_ne]
  constructor
  · rintro heq
    rw [heq] at hx'
    cases hx'
  · rintro heq
    rw [heq] at hx'
    cases hx'

/-- One reading comes to a carriage return, and the other one to a line feed. -/
theorem catchesUp_of_return (hdtd : WithoutReturns g.dtd) (h : s.Unifies g s')
    (hunifies : i.Unifies i') (hc : i.pushback = some '\r')
    (hmove : step g s = stepOn g ⟨i, s.mode, s.document⟩ (some '\r'))
    (hmove' : step g s' = stepOn g ⟨i', s.mode, s.document⟩ (some '\n')) :
    CatchesUp g (State.Unifies g) s s' := by
  have hreturns := hunifies.returns hc
  have hsteady := h.steady
  have hsound {actions : List Action} {t' : State} (ht' : step g s' = (actions, .running t')) :
      t'.Sound g := sound_of_step h.sound ht'
  have hpasses (hmode : s.mode.passes = true) : CatchesUp g (State.Unifies g) s s' := by
    rw [stepOn_passes hmode (.inl rfl)] at hmove
    rw [stepOn_passes hmode (.inr rfl)] at hmove'
    exact .of_joins hmove hmove' (joins_of_passes hmode hreturns (hsound hmove'))
  have hleaves (hmode : s.mode.leaves = true) : CatchesUp g (State.Unifies g) s s' := by
    -- the character is left, as the end of the input would be
    rw [stepOn_leaves hmode (.inl rfl)] at hmove
    rw [stepOn_leaves hmode (.inr rfl)] at hmove'
    apply CatchesUp.of_matches
    rw [hmove, hmove']
    refine matches_parallel hdtd (parallel_stepOn g i i' s.mode s.document none)
      (fun takes htakes => ?_) (leadsSteady_stepOn hsteady nofun) fun actions t' ht' =>
        hsound (hmove'.trans ht')
    cases takes with
    | false => exact hunifies
    | true => cases htakes rfl
  cases hmode : s.mode
  case textReturn | valueReturn =>
    rw [hmode] at hsteady
    exact hsteady.elim
  case text place =>
    rw [hmode] at hmove hmove'
    have hfirst : step g s = ([], .running ⟨i.consume, .textReturn place, s.document⟩) := hmove
    have hsecond : step g s' = ([], .running ⟨i'.consume, .text place, s.document.append "\n"⟩) :=
      hmove'
    refine .of_joins hfirst hsecond (joins_of_return (fun i c? => ?_) rfl rfl trivial hreturns
      (hsound hsecond))
    show stepTextReturn _ place c? = _
    unfold stepTextReturn
    split <;> rfl
  case value v =>
    cases hmark : v.mark with
    | none => exact hleaves (by rw [hmode]; simp [Mode.leaves, hmark])
    | some mark =>
      rw [hmode] at hsteady hmove hmove'
      have hne : '\r' ≠ mark ∧ '\n' ≠ mark := by
        obtain ⟨hreturn, hfeed⟩ := hsteady
        rw [hmark] at hreturn hfeed
        exact ⟨fun heq => hreturn (congrArg some heq.symm),
          fun heq => hfeed (congrArg some heq.symm)⟩
      have hfirst : step g s = ([], .running ⟨i.consume, .valueReturn v, s.document⟩) := by
        rw [hmove]
        simp only [stepOn, stepValue, hmark, stepQuotedValue]
        rw [if_neg hne.1]
        rfl
      have hsecond : step g s' = ([], .running
          ⟨i'.consume, .value { v with text := v.text.push ' ' }, s.document⟩) := by
        rw [hmove']
        simp only [stepOn, stepValue, hmark, stepQuotedValue]
        rw [if_neg hne.2]
        rfl
      refine .of_joins hfirst hsecond (joins_of_return (fun i c? => ?_) rfl rfl hsteady hreturns
        (hsound hsecond))
      show stepValueReturn _ v c? = _
      unfold stepValueReturn
      split <;> rfl
  case rawEndTag e expected seen =>
    refine hleaves ?_
    rw [hmode]
    exact leaves_of_sound h.sound (h.mode.trans hmode)
  all_goals first | exact hpasses (by rw [hmode]; rfl) | exact hleaves (by rw [hmode]; rfl)

/-- The reading of the document catches up with every step of the other one. -/
theorem State.Unifies.catchesUp (hdtd : WithoutReturns g.dtd) (h : s.Unifies g s') :
    CatchesUp g (State.Unifies g) s s' := by
  obtain ⟨r, j, j', hpeek, hpeek', hunifies⟩ := h.looks
  rw [← h.mode] at hpeek'
  cases r with
  | error failure =>
    apply CatchesUp.of_matches
    unfold step
    rw [hpeek, hpeek']
    exact .stops rfl
  | ok c? =>
    have hmove : step g s = stepOn g ⟨j, s.mode, s.document⟩ c? := step_of_peek hpeek
    have hmove' : step g s' = stepOn g ⟨j', s.mode, s.document⟩ (c?.map unifyReturn) := by
      rw [← h.mode, ← h.document]
      exact step_of_peek hpeek'
    have hsound (actions : List Action) (t' : State)
        (ht' : step g s' = (actions, .running t')) : t'.Sound g := sound_of_step h.sound ht'
    by_cases hreturn : c? = some '\r'
    · subst hreturn
      exact catchesUp_of_return hdtd h hunifies (Input.pushback_of_peek hpeek) hmove hmove'
    · have hsame : c?.map unifyReturn = c? := by
        cases c? with
        | none => rfl
        | some c => exact congrArg some (unifyReturn_of_ne fun hc => hreturn (congrArg some hc))
      rw [hsame] at hmove'
      apply CatchesUp.of_matches
      rw [hmove, hmove']
      rw [hmove'] at hsound
      refine matches_parallel hdtd (parallel_stepOn g j j' s.mode s.document c?)
        (fun takes htakes => ?_) (leadsSteady_stepOn h.steady hreturn) hsound
      cases takes with
      | false => exact hunifies
      | true =>
        obtain ⟨c, rfl⟩ := Option.isSome_iff_exists.1 (htakes rfl)
        exact hunifies.consume (Input.pushback_of_peek hpeek) fun hc => hreturn (congrArg some hc)

/-- Before the first character nothing has been read of either document. -/
theorem unifies_start (g : Grammar) (source : Source) :
    (State.start g source).Unifies g (State.start g source.unifyLineEnds) :=
  ⟨rfl, rfl, trivial, sound_start g _, Input.looks_of_finished rfl rfl rfl rfl rfl rfl⟩

/-- A document is read like the one with its line ends unified. -/
theorem read_unifyLineEnds (hdtd : WithoutReturns g.dtd) (source : Source) :
    (read g source).Alike (read g source.unifyLineEnds) :=
  run_alike_of_catchesUp (fun _ _ => State.Unifies.catchesUp hdtd) (unifies_start g source)

end Reader

open Reader

/-- A parse of a document does the same as a parse of the document with its line ends unified:
listeners of every kind receive the same, the parse ends in the same way and the same problems are
recorded. -/
theorem parse_unifyLineEnds {α : Type} [Listener α] (s : Session α) (source : Source)
    (h : WithoutReturns s.grammar.dtd) :
    (s.parse source).1.Alike (s.parse source.unifyLineEnds).1 ∧
      (s.parse source).2 = (s.parse source.unifyLineEnds).2 :=
  Session.performTrace_alike { s with log := s.log.clear } (read_unifyLineEnds h source)

/-- Verses with an entity of two lines. -/
def verses : Session Collector :=
  .start ⟨((Dtd.ofRoot "V").addElement (.ofName "V" .pcdata)).addEntity ⟨"e", "x\ny"⟩, .html⟩
    [.empty] false

/-- Line ends of all kinds in a value, in text, after a reference and in a tag. -/
theorem parse_unifyLineEnds_verses :
    WithoutReturns verses.grammar.dtd ∧
      (verses.parse (.ofText "<V A='1\n2'>a\n&e\n</V\n>")).1.listeners.map Collector.events =
        [[.startTag (.ofName "V" .pcdata) (.ofList [⟨"A", "1 2"⟩]),
          .characterData "a\nx\ny" false, .endTag (.ofName "V" .pcdata), .finished]] ∧
      (verses.parse (.ofText "<V A='1\r\n2'>a\r&e\r\n</V\r>")).1.Alike
        (verses.parse (.ofText "<V A='1\n2'>a\n&e\n</V\n>")).1 ∧
      (verses.parse (.ofText "<V A='1\r\n2'>a\r&e\r\n</V\r>")).2 =
        (verses.parse (.ofText "<V A='1\n2'>a\n&e\n</V\n>")).2 := by
  have hdtd : WithoutReturns verses.grammar.dtd := by decide +kernel
  have hunify : (Source.ofText "<V A='1\r\n2'>a\r&e\r\n</V\r>").unifyLineEnds =
      .ofText "<V A='1\n2'>a\n&e\n</V\n>" := by decide +kernel
  have hevents : (Reader.read verses.grammar (.ofText "<V A='1\n2'>a\n&e\n</V\n>")).events =
      [.startTag (.ofName "V" .pcdata) (.ofList [⟨"A", "1 2"⟩]), .characterData "a\nx\ny" false,
        .endTag (.ofName "V" .pcdata), .finished] := by
    apply Reader.shows_of_runWithin (n := 60)
    decide +kernel
  have hlisteners := (Session.parse_of_passive passive_collector verses rfl
    (.ofText "<V A='1\n2'>a\n&e\n</V\n>")).1
  rw [hevents] at hlisteners
  refine ⟨hdtd, by rw [hlisteners]; rfl, ?_⟩
  rw [← hunify]
  exact parse_unifyLineEnds verses _ hdtd

end Markup
