import Markup.Proofs.Input.Shallow
import Markup.Proofs.Input.SourceReads
import Markup.Proofs.Reader.EntityReferences
import Markup.Proofs.Session.Passive
import Markup.Proofs.Termination

/-!
# References of the source

A reference of the source to a declared entity is expanded unless the entity is being expanded, or
too many are, when the reader looks at its ampersand. The entities that still count there are none
at all, or those that were being expanded where the reader came to the ampersand inside another
reference (`reference_expanded`). `Leaves g source s rest` follows the reads that are left of the
source along a run, and `SeenWithin` says what was being expanded on the way to the ampersand. Where
no replacement text holds an ampersand, nothing ever is, so every such reference is expanded
(`expands_of_plain`).

That entities still count matters. A replacement text may end in the middle of a reference, as with
a lone ampersand. Then the reader looks at the next character of the source while the input is held,
and puts it back. If that is an ampersand, the next reference begins without another look below it,
and the expansion that has been read to its end still counts: a second reference to the same entity
is refused (`reference_refused`), one to another entity is not.
-/

namespace Markup

namespace Reader

/-- The reader gets from the start of a source to a state, and these reads of the source are left:
those that it has not taken. -/
inductive Leaves (g : Grammar) (source : Source) : State → Source → Prop
  /-- All of them are left at the start. -/
  | start : Leaves g source (.start g source) source
  /-- Replacement text comes before them. -/
  | replacement {s t : State} {rest : Source} {actions : List Action} : Leaves g source s rest →
      s.input.upcoming ≠ rest → step g s = (actions, .running t) → Leaves g source t rest
  /-- They come next. -/
  | source {s t : State} {rest : Source} {actions : List Action} {cs : List Char} :
      Leaves g source s rest → s.input.upcoming = rest → step g s = (actions, .running t) →
      Takes g s.looked cs t.input → Leaves g source t (rest.drop cs.length)

/-- These are the entities that are being expanded somewhere where these reads come next and the
reader is inside a reference. -/
def SeenWithin (g : Grammar) (source rest : Source) (names : List String) : Prop :=
  ∃ s, Leaves g source s rest ∧ s.input.upcoming = rest ∧ s.mode.isHeld = true ∧
    s.input.openNames = names

/-- What may still count as being expanded around the first of these reads. -/
def Counts (g : Grammar) (source rest : Source) (names : List String) : Prop :=
  names = [] ∨ SeenWithin g source rest names

/-- A reference in text to an entity is expanded: its replacement text comes next, before what
follows the reference, and nothing else has happened. -/
def Expands (g : Grammar) (s : State) (place : Place) (entity : Entity) (name : String)
    (tail : Source) : Prop :=
  ∃ t, Reaches g s [.note ("expanding entity &" ++ name ++ ";")] t ∧ t.mode = .text place ∧
    t.document = s.document ∧
    t.input.upcoming = entity.replacement.toList.map .ok ++ tail.afterSemicolon

/-- A reference in text to an entity is refused: that is reported, and its name becomes text. -/
def Refuses (g : Grammar) (s : State) (place : Place) (refusal : Refusal) (name : String)
    (tail : Source) : Prop :=
  ∃ line t, Reaches g s [.report ⟨.unexpandedEntity name refusal, line⟩] t ∧
    t.mode = .text place ∧ t.document = s.document.append ("&" ++ name) ∧
    t.input.upcoming = tail.afterSemicolon

variable {g : Grammar} {source rest tail : Source} {s t : State} {place : Place} {name : String}
  {entity : Entity} {around : List String → Prop} {i j : Input} {cs : List Char}

/-! ## The reads that are left -/

/-- A step keeps the reads that it does not take. -/
theorem keeps_takes (h : i.Keeps around rest) (htakes : Takes g i cs j)
    (hne : i.upcoming ≠ rest ∨ cs = []) : j.Keeps around rest := by
  have hafter (takes : Bool) (hcs : cs = i.taken takes) : (i.after takes).Keeps around rest := by
    cases takes with
    | false => exact h
    | true =>
      refine h.consume (hne.imp_right fun hnil => ?_)
      rw [hnil] at hcs
      cases hp : i.pushback with
      | none => rfl
      | some c => simp [Input.taken, hp] at hcs
  cases htakes with
  | goes takes => exact hafter takes rfl
  | expands takes _ hpush => exact (hafter takes rfl).pushEntity hpush

/-- A step that takes the first of the reads leaves the others in the source. -/
theorem keeps_takes_first (h : i.Keeps around rest) (hup : i.upcoming = rest)
    (htakes : Takes g i cs j) (hcs : cs ≠ []) (around' : List String → Prop) :
    j.Keeps around' (rest.drop cs.length) := by
  have hafter (takes : Bool) (htaken : cs = i.taken takes) :
      (i.after takes).Keeps around' (rest.drop cs.length) := by
    cases takes with
    | false => exact absurd htaken hcs
    | true =>
      cases hp : i.pushback with
      | none => simp [htaken, Input.taken, hp] at hcs
      | some c =>
        have hfirst := h.consume_first hup hp around'
        rw [← List.drop_one] at hfirst
        simpa [htaken, Input.taken, hp] using hfirst
  cases htakes with
  | goes takes => exact hafter takes rfl
  | expands takes _ hpush => exact (hafter takes rfl).pushEntity hpush

/-- The reader gets to every state that leaves something. -/
theorem Leaves.reaches (h : Leaves g source s rest) :
    ∃ actions, Reaches g (.start g source) actions s := by
  induction h with
  | start => exact ⟨[], .refl _⟩
  | replacement _ _ hstep ih =>
    obtain ⟨actions, hreach⟩ := ih
    exact ⟨_, hreach.trans (.single hstep)⟩
  | source _ _ hstep _ ih =>
    obtain ⟨actions, hreach⟩ := ih
    exact ⟨_, hreach.trans (.single hstep)⟩

/-- A look keeps the reads, since the reader may be inside a reference where it is. -/
theorem Leaves.keeps_looked (h : Leaves g source s rest)
    (hkeeps : s.input.Keeps (Counts g source rest) rest) {c? : Option Char}
    (hpeek : (s.input.hold s.mode.isHeld).peek = (.ok c?, s.looked)) :
    s.looked.Keeps (Counts g source rest) rest :=
  (hkeeps.hold s.mode.isHeld).peek (.inl rfl) (fun hup hheld => .inr ⟨s, h, hup, hheld, rfl⟩) hpeek

/-- Wherever the reader gets, the input has the reads that are left. -/
theorem Leaves.keeps (h : Leaves g source s rest) :
    s.input.Keeps (Counts g source rest) rest := by
  induction h with
  | start => exact .unseen rfl
  | replacement hleaves hne hstep ih =>
    obtain ⟨c?, hpeek, -⟩ := exists_peek_of_running hstep
    obtain ⟨cs, htakes⟩ := exists_takes hstep
    refine keeps_takes (hleaves.keeps_looked ih hpeek) htakes (.inl ?_)
    rw [(Input.peek_ok hpeek).1]
    exact hne
  | @source s t rest actions cs hleaves hup hstep htakes ih =>
    obtain ⟨c?, hpeek, -⟩ := exists_peek_of_running hstep
    have hlooked := hleaves.keeps_looked ih hpeek
    by_cases hcs : cs = []
    · subst hcs
      exact keeps_takes hlooked htakes (.inr rfl)
    · refine keeps_takes_first hlooked ?_ htakes hcs _
      rw [(Input.peek_ok hpeek).1]
      exact hup

/-! ## Replacement texts without ampersands -/

/-- An input stays shallow when a character is taken. -/
theorem shallow_after (h : i.Shallow) (takes : Bool) : (i.after takes).Shallow := by
  cases takes with
  | false => exact h
  | true => exact h.consume

/-- Taking a character leaves the entities that are being expanded. -/
theorem openNames_after (i : Input) (takes : Bool) : (i.after takes).openNames = i.openNames := by
  cases takes with
  | false => rfl
  | true => exact Input.openNames_consume

/-- Outside references an entity may be expanded, inside references none is. -/
structure State.Plain (s : State) : Prop where
  /-- The input is shallow. -/
  shallow : s.input.Shallow
  /-- Inside a reference no entity is being expanded. -/
  held : s.mode.isHeld = true → s.input.openNames = []

/-- Where no replacement text holds an ampersand, every step keeps entities outside references. -/
theorem plain_step {actions : List Action}
    (hplain : ∀ name entity, g.dtd.entity? name = some entity → '&' ∉ entity.replacement.toList)
    (h : s.Plain) (hstep : step g s = (actions, .running t)) : t.Plain := by
  obtain ⟨c?, hpeek, -⟩ := exists_peek_of_running hstep
  have hlooked : s.looked.Shallow := (h.shallow.hold s.mode.isHeld).peek h.held hpeek
  have hopen (hheld : s.mode.isHeld = true) : s.looked.openNames = [] := by
    have hsublist := Input.openNames_peek hpeek
    rw [Input.openNames_hold, h.held hheld] at hsublist
    exact List.sublist_nil.1 hsublist
  obtain ⟨takes, ⟨hinput, hheld⟩ | ⟨name, entity, hheld, hmode, hentity, hpush⟩⟩ :=
    running_cases hstep
  · refine ⟨by rw [hinput]; exact shallow_after hlooked takes, fun hmode => ?_⟩
    rw [hinput, openNames_after]
    rcases hheld hmode with hheld | hampersand
    · exact hopen hheld
    · exact hlooked.ampersand hampersand
  · refine ⟨.pushEntity ?_ (hplain name entity hentity) hpush, fun hheld' => ?_⟩
    · rw [openNames_after, hopen hheld]
    · rw [hmode] at hheld'
      cases hheld'

/-- Where no replacement text holds an ampersand, the reader comes to no read of the source inside a
reference while an entity is being expanded. -/
theorem counts_eq_nil_of_plain
    (hplain : ∀ name entity, g.dtd.entity? name = some entity → '&' ∉ entity.replacement.toList)
    {names : List String} (h : Counts g source rest names) : names = [] := by
  rcases h with hnil | ⟨s, hleaves, -, hheld, rfl⟩
  · exact hnil
  · obtain ⟨actions, hreach⟩ := hleaves.reaches
    have hstart : (State.start g source).Plain := ⟨Input.shallow_of_openNames rfl, nofun⟩
    exact (hreach.invariant (fun hs hstep => plain_step hplain hs hstep) hstart).held hheld

/-! ## References -/

/-- What is being expanded where the reader has come to the first of the reads. -/
theorem Leaves.counts_looked {c : Char} (h : Leaves g source s rest)
    (hup : s.input.upcoming = rest) (hrest : rest = .ok c :: tail) :
    Counts g source rest s.looked.openNames := by
  obtain ⟨j, hpeek, hkept, -⟩ := Input.peek_of_upcoming_cons
    (i := s.input.hold s.mode.isHeld) (hup.trans hrest)
  have hlooked : s.looked = j := congrArg Prod.snd hpeek
  rw [← hlooked] at hpeek hkept
  exact ((h.keeps_looked h.keeps hpeek).seen (hkept.trans hrest.symm)
    (Input.pushback_of_peek hpeek)).2

/-- Along a run the limit of the input is that of the dialect. -/
theorem Leaves.maxDepth_eq (h : Leaves g source s rest) :
    s.input.maxDepth = g.dialect.maxDepth := by
  obtain ⟨actions, hreach⟩ := h.reaches
  obtain ⟨n, cs, hconsumes⟩ := hreach.exists_consumes
  exact (hconsumes.nests (Input.nests_ofSource source g.dialect.maxDepth)).maxDepth_eq

section

variable (hleaves : Leaves g source s (.ok '&' :: (name.toList.map .ok ++ tail)))
  (hnext : s.input.upcoming = .ok '&' :: (name.toList.map .ok ++ tail))
  (hmode : s.mode = .text place) (hplace : place.honoursReferences = true)
  (hname : isToken name = true) (hend : tail.EndsName)
  (hspace : g.dialect.spaceEntity ≠ some name) (hentity : g.dtd.entity? name = some entity)

include hleaves hnext hmode hplace hname hend hspace hentity

/-- An entity that is not being expanded is expanded where the limit leaves room. -/
theorem Leaves.expands (hopen : name ∉ s.looked.openNames)
    (hdepth : s.looked.openNames.length < g.dialect.maxDepth) :
    Expands g s place entity name tail := by
  rw [← hleaves.maxDepth_eq] at hdepth
  obtain ⟨j, t, hexpands, htext, hdocument, hpush, -, -, hup, -⟩ :=
    reaches_expansion hmode hplace hname hend hnext hspace hentity hopen hdepth
  exact ⟨t, hexpands, htext, hdocument, by rw [Input.upcoming_pushEntity hpush, hup]⟩

omit hleaves in
/-- An entity is refused while it is being expanded. -/
theorem refuses_recursive (hopen : name ∈ s.looked.openNames) :
    Refuses g s place .recursive name tail :=
  reaches_refusal hmode hplace hname hend hnext hspace hentity fun j hnames _ =>
    j.pushEntity_recursive entity.replacement (by rw [hnames]; exact hopen)

/-- Any other entity is refused where the limit leaves no room. -/
theorem Leaves.refuses_tooDeep (hopen : name ∉ s.looked.openNames)
    (hdepth : g.dialect.maxDepth ≤ s.looked.openNames.length) :
    Refuses g s place (.tooDeep g.dialect.maxDepth) name tail := by
  refine reaches_refusal hmode hplace hname hend hnext hspace hentity fun j hnames hmax => ?_
  rw [hleaves.maxDepth_eq] at hmax
  rw [← hmax]
  refine j.pushEntity_tooDeep entity.replacement (by rw [hnames]; exact hopen) ?_
  rw [← j.length_openNames, hnames, hmax]
  exact hdepth

/-- Where no replacement text holds an ampersand, every reference of the source is expanded. -/
theorem expands_of_plain (hlimit : 1 ≤ g.dialect.maxDepth)
    (hplain : ∀ name entity, g.dtd.entity? name = some entity → '&' ∉ entity.replacement.toList) :
    Expands g s place entity name tail := by
  have hnil := counts_eq_nil_of_plain hplain (hleaves.counts_looked hnext rfl)
  refine hleaves.expands hnext hmode hplace hname hend hspace hentity ?_ ?_
  · rw [hnil]
    exact List.not_mem_nil
  · rw [hnil]
    exact hlimit

end

/-- A reference of the source to an entity, whatever stands before it. The entities that count as
being expanded when the reader looks at its ampersand are none, or those that were being expanded
where the reader came to the ampersand inside another reference. The reference is expanded unless
its entity is one of them or there are too many of them. -/
theorem reference_expanded
    (hleaves : Leaves g source s (.ok '&' :: (name.toList.map .ok ++ tail)))
    (hnext : s.input.upcoming = .ok '&' :: (name.toList.map .ok ++ tail))
    (hmode : s.mode = .text place) (hplace : place.honoursReferences = true)
    (hname : isToken name = true) (hend : tail.EndsName)
    (hspace : g.dialect.spaceEntity ≠ some name) (hentity : g.dtd.entity? name = some entity) :
    (s.looked.openNames = [] ∨
        SeenWithin g source (.ok '&' :: (name.toList.map .ok ++ tail)) s.looked.openNames) ∧
      (name ∉ s.looked.openNames → s.looked.openNames.length < g.dialect.maxDepth →
        Expands g s place entity name tail) ∧
      (name ∈ s.looked.openNames → Refuses g s place .recursive name tail) ∧
      (name ∉ s.looked.openNames → g.dialect.maxDepth ≤ s.looked.openNames.length →
        Refuses g s place (.tooDeep g.dialect.maxDepth) name tail) :=
  ⟨hleaves.counts_looked hnext rfl,
    hleaves.expands hnext hmode hplace hname hend hspace hentity,
    refuses_recursive hnext hmode hplace hname hend hspace hentity,
    hleaves.refuses_tooDeep hnext hmode hplace hname hend hspace hentity⟩

/-- An entity `e` whose replacement text is a letter. -/
def letterEntity : Grammar where
  dtd := (Dtd.ofRoot "D").addEntity ⟨"e", "x"⟩
  dialect := .strict

/-- The reference of a text that begins with it. -/
theorem reference_expanded_letter :
    (Source.EndsName (.ofText ";y") ∧ letterEntity.dialect.spaceEntity ≠ some "e" ∧
        letterEntity.dtd.entity? "e" = some ⟨"e", "x"⟩) ∧
      ∃ t, Reaches letterEntity (.start letterEntity (.ofText "&e;y"))
          [.note ("expanding entity &" ++ "e" ++ ";")] t ∧ t.mode = .text .content ∧
        t.document = .start ∧ t.input.upcoming = .ofText "xy" := by
  have hentity : letterEntity.dtd.entity? "e" = some ⟨"e", "x"⟩ := by decide +kernel
  have hleaves : Leaves letterEntity (.ofText "&e;y") (.start letterEntity (.ofText "&e;y"))
      (.ok '&' :: ("e".toList.map .ok ++ Source.ofText ";y")) := .start
  have hend : Source.EndsName (.ofText ";y") := rfl
  obtain ⟨-, hexpands, -, -⟩ :=
    reference_expanded hleaves rfl rfl rfl (by decide +kernel) hend nofun hentity
  exact ⟨⟨hend, nofun, hentity⟩, hexpands List.not_mem_nil (by decide)⟩

/-! ## Finished expansions that still count -/

/-- An entity `e` whose replacement text ends in the middle of a reference. -/
def loneAmpersand : Grammar where
  dtd := (Dtd.ofRoot "D").addEntity ⟨"e", "&"⟩
  dialect := .strict

/-- The same, and an entity `f` whose replacement text is a letter. -/
def ampersandAndLetter : Grammar where
  dtd := loneAmpersand.dtd.addEntity ⟨"f", "x"⟩
  dialect := .strict

end Reader

open Reader

/-- The second of two references of the source is refused, though the expansion of the first has
been read to its end. -/
theorem reference_refused :
    1 ≤ loneAmpersand.dialect.maxDepth ∧ loneAmpersand.dialect.spaceEntity ≠ some "e" ∧
      loneAmpersand.dtd.entity? "e" = some ⟨"e", "&"⟩ ∧
      collect loneAmpersand (.ofText "&e;&e;") =
        ([.characterData "&&e" false, .finished], [⟨.unexpandedEntity "e" .recursive, 1⟩],
          .ok ()) := by
  have hrun : Reader.read loneAmpersand (.ofText "&e;&e;") =
      ⟨[.note "expanding entity &e;", .report ⟨.unexpandedEntity "e" .recursive, 1⟩, .checkpoint,
        .deliver (.characterData "&&e" false), .deliver .finished], .finished⟩ := by
    apply run_of_runWithin (n := 20)
    decide +kernel
  refine ⟨by decide, nofun, by decide +kernel, ?_⟩
  rw [collect_eq, hrun]
  rfl

/-- A reference to another entity is expanded in its place. -/
example :
    Reader.read ampersandAndLetter (.ofText "&e;&f;") =
      ⟨[.note "expanding entity &e;", .note "expanding entity &f;", .checkpoint,
        .deliver (.characterData "&x" false), .deliver .finished], .finished⟩ := by
  apply run_of_runWithin (n := 20)
  decide +kernel

end Markup
