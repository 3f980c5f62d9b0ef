import Markup.Proofs.Input.OpenEntities
import Markup.Proofs.Reader.Reaches
import Markup.Proofs.Reader.Token

/-!
# Reading a reference to an entity

A reference to an entity in text is read character by character while the input is held, so from the
look at its ampersand to its end the expansions stay, whatever text they lose (`State.Stands`). The
reference therefore ends with those entities expanded that were so at that look
(`exists_reference`), and the entity that it names is expanded if it is not one of them and the
limit has not been reached (`reaches_expansion`). Otherwise it is refused (`reaches_refusal`).
-/

namespace Markup

/-- The reads that follow a name in which nothing fails: the end of the input, or a character that
does not go on with the name. -/
def Source.EndsName : Source → Prop
  | [] => True
  | .ok c :: _ => Reader.isNameChar c = false
  | .error _ :: _ => False

/-- The reads after a semicolon, if there is one. -/
def Source.afterSemicolon : Source → Source
  | .ok ';' :: rest => rest
  | rest => rest

/-- Only a semicolon is taken after a reference. -/
theorem Source.afterSemicolon_of_ne {c : Char} (rest : Source) (h : c ≠ ';') :
    Source.afterSemicolon (.ok c :: rest) = .ok c :: rest := by
  unfold afterSemicolon
  split
  · rename_i heq
    cases heq
    exact absurd rfl h
  · rfl

namespace Reader

/-- The state is in a mode, with a document, entities that are expanded and reads to come. -/
structure State.Stands (s : State) (mode : Mode) (document : Document)
    (entities : List (Option String)) (limit : Nat) (ahead : Source) : Prop where
  /-- It is in the mode. -/
  mode : s.mode = mode
  /-- It has read the document. -/
  document : s.document = document
  /-- The expansions replace the entities. -/
  entities : s.input.expansions.map Expansion.entity = entities
  /-- Entities nest within the limit. -/
  maxDepth : s.input.maxDepth = limit
  /-- The reads are to come. -/
  upcoming : s.input.upcoming = ahead

variable {g : Grammar} {s : State} {mode : Mode} {d : Document} {place : Place}
  {entities : List (Option String)} {limit : Nat} {c : Char} {ahead tail : Source}
  {name : String} {entity : Entity}

/-! ## Characters of a reference -/

/-- A look in a reference leaves the expansions. -/
theorem State.Stands.look (h : s.Stands mode d entities limit ahead) (hheld : mode.isHeld = true) :
    s.looked.expansions.map Expansion.entity = entities ∧ s.looked.maxDepth = limit := by
  have hentities := Input.entities_peek_of_holding (i := s.input.hold s.mode.isHeld)
    (r := (s.input.hold s.mode.isHeld).peek.1) (j := s.looked) rfl (by rw [h.mode]; exact hheld)
  have hmax := Input.maxDepth_of_peek (i := s.input.hold s.mode.isHeld)
    (r := (s.input.hold s.mode.isHeld).peek.1) (j := s.looked) rfl
  exact ⟨hentities.trans h.entities, hmax.trans h.maxDepth⟩

/-- A character of a reference is taken, and the expansions stay. -/
theorem State.Stands.take (h : s.Stands mode d entities limit (.ok c :: ahead)) (next : Mode)
    (hheld : mode.isHeld = true)
    (hstep : ∀ i, stepOn g ⟨i, mode, d⟩ (some c) = State.goto ⟨i.consume, mode, d⟩ next) :
    ∃ t, step g s = ([], .running t) ∧ t.Stands next d entities limit ahead := by
  obtain ⟨hentities, hmax⟩ := h.look hheld
  obtain ⟨j, hpeek, -, hrest⟩ := Input.peek_of_upcoming_cons (i := s.input.hold s.mode.isHeld)
    (h.upcoming : (s.input.hold s.mode.isHeld).upcoming = _)
  have hlooked : s.looked = j := congrArg Prod.snd hpeek
  rw [hlooked] at hentities hmax
  refine ⟨⟨j.consume, next, d⟩, ?_, ?_⟩
  · rw [step_of_peek hpeek, h.mode, h.document, hstep]
    rfl
  · refine ⟨rfl, rfl, ?_, ?_, hrest⟩
    · rw [Input.expansions_consume, hentities]
    · rw [Input.maxDepth_consume, hmax]

/-- The rest of the name of an entity is read up to its last character. -/
theorem State.Stands.takeName {more : List Char} (hmore : ∀ x ∈ more, isNameChar x = true)
    (h : s.Stands (.entityName (.text place) name) d entities limit (more.map .ok ++ tail)) :
    ∃ t, Reaches g s [] t ∧
      t.Stands (.entityName (.text place) (name ++ String.ofList more)) d entities limit tail := by
  induction more generalizing s name with
  | nil =>
    refine ⟨s, .refl s, ?_⟩
    rw [String.ofList_nil, String.append_empty]
    exact h
  | cons x more ih =>
    obtain ⟨t, hstep, ht⟩ := h.take (g := g) (.entityName (.text place) (name.push x)) rfl
      fun i => by
        simp only [stepOn, stepEntityName]
        rw [if_pos (hmore x (by simp))]
        rfl
    obtain ⟨u, hreach, hu⟩ := ih (fun y hy => hmore y (by simp [hy])) ht
    refine ⟨u, .step hstep hreach, ?_⟩
    have hname : name ++ String.ofList (x :: more) = name.push x ++ String.ofList more := by
      apply String.toList_inj.1
      simp
    rw [hname]
    exact hu

/-- The end of the name of an entity, with its semicolon if there is one. -/
theorem State.Stands.endName (hend : tail.EndsName)
    (h : s.Stands (.entityName (.text place) name) d entities limit tail) :
    ∃ j, step g s = endTextEntity g ⟨j, .entityName (.text place) name, d⟩ place name ∧
      j.expansions.map Expansion.entity = entities ∧ j.maxDepth = limit ∧
      j.upcoming = tail.afterSemicolon ∧
      (∀ rest, tail = .ok ';' :: rest → j.pushback = none) := by
  obtain ⟨hentities, hmax⟩ := h.look rfl
  have hup : (s.input.hold s.mode.isHeld).upcoming = tail := h.upcoming
  cases tail with
  | nil =>
    obtain ⟨j, hpeek, hkept⟩ := Input.peek_of_upcoming_nil hup
    have hlooked : s.looked = j := congrArg Prod.snd hpeek
    rw [hlooked] at hentities hmax
    refine ⟨j, ?_, hentities, hmax, hkept, nofun⟩
    rw [step_of_peek hpeek, h.mode, h.document]
    rfl
  | cons item rest =>
    cases item with
    | error failure => exact hend.elim
    | ok c =>
      obtain ⟨j, hpeek, hkept, hrest⟩ := Input.peek_of_upcoming_cons hup
      have hlooked : s.looked = j := congrArg Prod.snd hpeek
      have hname : ¬isNameChar c = true := by
        rw [show isNameChar c = false from hend]
        exact Bool.false_ne_true
      rw [hlooked] at hentities hmax
      rw [step_of_peek hpeek, h.mode, h.document]
      simp only [stepOn, stepEntityName]
      rw [if_neg hname]
      by_cases hc : c = ';'
      · subst hc
        rw [if_pos rfl]
        refine ⟨j.consume, rfl, ?_, ?_, hrest, fun _ _ => j.pushback_consume⟩
        · rw [Input.expansions_consume, hentities]
        · rw [Input.maxDepth_consume, hmax]
      · rw [if_neg hc]
        refine ⟨j, rfl, hentities, hmax, ?_, fun more hmore => ?_⟩
        · rw [hkept, Source.afterSemicolon_of_ne rest hc]
        · cases hmore
          exact absurd rfl hc

/-! ## The whole reference -/

/-- A reference to an entity in text is read with the entities expanded that were so at the look at
its ampersand. -/
theorem exists_reference (hmode : s.mode = .text place) (hplace : place.honoursReferences = true)
    (hname : isToken name = true) (hend : tail.EndsName)
    (hup : s.input.upcoming = .ok '&' :: (name.toList.map .ok ++ tail)) :
    ∃ t j, Reaches g s [] t ∧
      step g t = endTextEntity g ⟨j, .entityName (.text place) name, s.document⟩ place name ∧
      j.expansions.map Expansion.entity = s.looked.expansions.map Expansion.entity ∧
      j.maxDepth = s.input.maxDepth ∧ j.upcoming = tail.afterSemicolon ∧
      (∀ rest, tail = .ok ';' :: rest → j.pushback = none) := by
  obtain ⟨x, more, hspelt, hstart, hmore⟩ := exists_of_isTokenList hname
  -- the ampersand is taken by a step that is not held yet
  obtain ⟨i, hpeek, -, hrest⟩ := Input.peek_of_upcoming_cons (i := s.input.hold s.mode.isHeld) hup
  have hlooked : s.looked = i := congrArg Prod.snd hpeek
  have hampersand : step g s =
      ([], .running ⟨i.consume, .reference (.text place), s.document⟩) := by
    rw [step_of_peek hpeek, hmode]
    simp only [stepOn, stepText]
    rw [if_pos ⟨trivial, hplace⟩]
    rfl
  have hafter : State.Stands ⟨i.consume, .reference (.text place), s.document⟩
      (.reference (.text place)) s.document (s.looked.expansions.map Expansion.entity)
      s.input.maxDepth (.ok x :: (more.map .ok ++ tail)) := by
    refine ⟨rfl, rfl, ?_, ?_, ?_⟩
    · rw [Input.expansions_consume, hlooked]
    · rw [Input.maxDepth_consume, Input.maxDepth_of_peek hpeek, Input.maxDepth_hold]
    · rw [hrest, hspelt]
      rfl
  -- the name is read while the input is held
  obtain ⟨t, hletter, ht⟩ := hafter.take (g := g)
    (.entityName (.text place) (String.singleton x)) rfl fun i => by
      have hne : x ≠ '#' := by
        rintro rfl
        cases hstart
      simp only [stepOn, stepReference]
      rw [if_neg hne, if_pos hstart]
      rfl
  obtain ⟨u, hreach, hu⟩ := ht.takeName (g := g) hmore
  have hwhole : String.singleton x ++ String.ofList more = name := by
    apply String.toList_inj.1
    simp [hspelt]
  rw [hwhole] at hu
  obtain ⟨j, hstep, hj⟩ := hu.endName (g := g) hend
  exact ⟨u, j, .step hampersand (.step hletter hreach), hstep, hj⟩

/-- A reference to an entity in text is expanded if, at the look at its ampersand, the entity is not
being expanded and the limit has not been reached. -/
theorem reaches_expansion (hmode : s.mode = .text place) (hplace : place.honoursReferences = true)
    (hname : isToken name = true) (hend : tail.EndsName)
    (hup : s.input.upcoming = .ok '&' :: (name.toList.map .ok ++ tail))
    (hspace : g.dialect.spaceEntity ≠ some name) (hentity : g.dtd.entity? name = some entity)
    (hopen : name ∉ s.looked.openNames) (hdepth : s.looked.openNames.length < s.input.maxDepth) :
    ∃ (j : Input) (t : State), Reaches g s [.note ("expanding entity &" ++ name ++ ";")] t ∧
      t.mode = .text place ∧ t.document = s.document ∧
      j.pushEntity name entity.replacement = .ok t.input ∧
      j.expansions.map Expansion.entity = s.looked.expansions.map Expansion.entity ∧
      j.maxDepth = s.input.maxDepth ∧ j.upcoming = tail.afterSemicolon ∧
      (∀ rest, tail = .ok ';' :: rest → j.pushback = none) := by
  obtain ⟨t, j, hreach, hstep, hentities, hmax, hj⟩ :=
    exists_reference (g := g) hmode hplace hname hend hup
  have hnames : j.openNames = s.looked.openNames := openNames_of_entities hentities
  obtain ⟨input, hpush⟩ := Input.exists_pushEntity (i := j) entity.replacement
    (by rw [hnames]; exact hopen) (by rw [← Input.length_openNames, hnames, hmax]; exact hdepth)
  refine ⟨j, ⟨input, .text place, s.document⟩, hreach.trans (.single ?_), rfl, rfl, hpush,
    hentities, hmax, hj⟩
  rw [hstep]
  simp only [endTextEntity, hentity, hpush]
  rw [if_neg hspace]

/-- A reference to an entity in text becomes text if the entity is refused with the entities that
are being expanded at the look at its ampersand. -/
theorem reaches_refusal {refusal : Refusal} (hmode : s.mode = .text place)
    (hplace : place.honoursReferences = true) (hname : isToken name = true) (hend : tail.EndsName)
    (hup : s.input.upcoming = .ok '&' :: (name.toList.map .ok ++ tail))
    (hspace : g.dialect.spaceEntity ≠ some name) (hentity : g.dtd.entity? name = some entity)
    (hrefused : ∀ j : Input, j.openNames = s.looked.openNames → j.maxDepth = s.input.maxDepth →
      j.pushEntity name entity.replacement = .error refusal) :
    ∃ (line : Nat) (t : State),
      Reaches g s [.report ⟨.unexpandedEntity name refusal, line⟩] t ∧ t.mode = .text place ∧
      t.document = s.document.append ("&" ++ name) ∧ t.input.upcoming = tail.afterSemicolon := by
  obtain ⟨t, j, hreach, hstep, hentities, hmax, hj, -⟩ :=
    exists_reference (g := g) hmode hplace hname hend hup
  have hpush := hrefused j (openNames_of_entities hentities) hmax
  refine ⟨j.line, ⟨j, .text place, s.document.append ("&" ++ name)⟩,
    hreach.trans (.single ?_), rfl, rfl, hj⟩
  rw [hstep]
  simp only [endTextEntity, hentity, hpush]
  rw [if_neg hspace]
  rfl

end Reader

end Markup
