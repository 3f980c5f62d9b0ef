import Markup.Input.Weight
import Markup.Proofs.Input.LineCount

/-!
# Line ends of an input

Lines may end with a line feed, a carriage return, or both. `Source.unifyLineEnds` writes all of
them as line feeds. An input over the source that results holds what the other one does with its
line ends unified (`Input.Unifies`): it has a line feed wherever the other has a carriage return,
and lacks the line feed that goes with the return. Looks at both find the same but for that
(`Unifies.peek`). A carriage return comes from the source and not from the text of an entity, so
nothing that has been taken from the source comes after it, and once the line feed behind it has
been taken as well the two inputs are level again (`looks_of_finished`).
-/

namespace Markup

/-- A carriage return as a line feed. -/
def unifyReturn (c : Char) : Char :=
  if c = '\r' then '\n' else c

/-- Only carriage returns are changed. -/
theorem unifyReturn_of_ne {c : Char} (h : c ≠ '\r') : unifyReturn c = c :=
  if_neg h

/-- A text without carriage returns stays as it is. -/
theorem map_unifyReturn {cs : List Char} (h : '\r' ∉ cs) : cs.map unifyReturn = cs := by
  have hsame : cs.map unifyReturn = cs.map id := by
    refine List.map_congr_left fun c hc => unifyReturn_of_ne ?_
    rintro rfl
    exact h hc
  rw [hsame, List.map_id]

namespace Source

/-- The source without the line feed that belongs to a carriage return before it. -/
def afterReturn : Source → Source
  | .ok '\n' :: rest => rest
  | rest => rest

/-- Every carriage return with a line feed after it as the line feed. -/
def joinLineEnds : Source → Source
  | .ok '\r' :: .ok '\n' :: rest => .ok '\n' :: joinLineEnds rest
  | item :: rest => item :: joinLineEnds rest
  | [] => []

/-- Every line end as a line feed: first those of two characters, then each carriage return that
is left. -/
def unifyLineEnds (source : Source) : Source :=
  source.joinLineEnds.map (Except.map unifyReturn)

/-- After a carriage return only a line feed is dropped. -/
theorem afterReturn_of_ne {rest : Source} (h : rest.head? ≠ some (.ok '\n')) :
    rest.afterReturn = rest := by
  unfold afterReturn
  split
  · exact (h rfl).elim
  · rfl

/-- A carriage return makes one line end with the line feed after it. -/
theorem unifyLineEnds_return (rest : Source) :
    unifyLineEnds (.ok '\r' :: rest) = .ok '\n' :: unifyLineEnds rest.afterReturn := by
  by_cases hfeed : rest.head? = some (.ok '\n')
  · obtain ⟨rest, rfl⟩ := List.head?_eq_some_iff.1 hfeed
    rfl
  · have hjoin : joinLineEnds (.ok '\r' :: rest) = .ok '\r' :: joinLineEnds rest := by
      rw [joinLineEnds]
      rintro rest' - rfl
      exact hfeed rfl
    rw [afterReturn_of_ne hfeed, unifyLineEnds, hjoin]
    rfl

/-- Every other read stays as it is. -/
theorem unifyLineEnds_cons {item : Except ReadFailure Char} (h : item ≠ .ok '\r')
    (rest : Source) : unifyLineEnds (item :: rest) = item :: unifyLineEnds rest := by
  have hjoin : joinLineEnds (item :: rest) = item :: joinLineEnds rest := by
    rw [joinLineEnds]
    rintro rest' rfl -
    exact h rfl
  have hitem : item.map unifyReturn = item := by
    cases item with
    | error failure => rfl
    | ok c => exact congrArg Except.ok (unifyReturn_of_ne fun hc => h (congrArg Except.ok hc))
  rw [unifyLineEnds, hjoin, List.map_cons, hitem]
  rfl

/-- Text without carriage returns stays as it is before a source. -/
theorem unifyLineEnds_append {cs : List Char} (h : '\r' ∉ cs) (rest : Source) :
    unifyLineEnds (cs.map .ok ++ rest) = cs.map .ok ++ unifyLineEnds rest := by
  induction cs with
  | nil => rfl
  | cons c cs ih =>
    rw [List.mem_cons, not_or] at h
    have hc : (.ok c : Except ReadFailure Char) ≠ .ok '\r' := fun heq =>
      h.1 (Except.ok.inj heq).symm
    rw [List.map_cons, List.cons_append, unifyLineEnds_cons hc, ih h.2]
    rfl

end Source

/-! ## Expansions -/

/-- An expansion with its line ends unified. -/
def Expansion.unify (x : Expansion) : Expansion :=
  { x with rest := x.rest.map unifyReturn }

section

variable (xs : List Expansion)

/-- The first character of unified expansions is unified. -/
theorem takeFirst_unify :
    takeFirst (xs.map Expansion.unify) =
      (takeFirst xs).map fun p => (unifyReturn p.1, p.2.map Expansion.unify) := by
  induction xs with
  | nil => rfl
  | cons x xs ih =>
    obtain ⟨entity, rest⟩ := x
    cases rest with
    | cons c rest => rfl
    | nil =>
      simp only [List.map_cons, Expansion.unify, takeFirst, List.map_nil, Option.map_map] at ih ⊢
      rw [ih, Option.map_map]
      rfl

/-- Unified expansions are read to their end together with the others. -/
theorem dropWhile_unify :
    (xs.map Expansion.unify).dropWhile (·.rest.isEmpty) =
      (xs.dropWhile (·.rest.isEmpty)).map Expansion.unify := by
  rw [List.dropWhile_map]
  congr 2
  funext x
  exact List.isEmpty_map

/-- The text of unified expansions is unified. -/
theorem expansionsText_unify :
    expansionsText (xs.map Expansion.unify) = (expansionsText xs).map unifyReturn := by
  unfold expansionsText
  rw [List.flatMap_map, List.map_flatMap]
  rfl

/-- Unified expansions are nested as deep. -/
theorem namedDepth_unify : namedDepth (xs.map Expansion.unify) = namedDepth xs := by
  unfold namedDepth
  rw [List.countP_map]
  rfl

/-- The names of unified expansions are the same. -/
theorem any_entity_unify (name : String) :
    (xs.map Expansion.unify).any (·.entity == some name) =
      xs.any (·.entity == some name) := by
  rw [List.any_map]
  rfl

end

namespace Input

/-! ## Inputs side by side -/

/-- The second input holds what the first one does, with line ends unified. -/
structure Unifies (i i' : Input) : Prop where
  /-- The same character is put back. -/
  pushback : i'.pushback = i.pushback.map unifyReturn
  /-- The same expansions are above the sources. -/
  expansions : i'.expansions = i.expansions.map Expansion.unify
  /-- Entities nest within the same limit. -/
  maxDepth : i'.maxDepth = i.maxDepth
  /-- All that is upcoming has its line ends unified. -/
  upcoming : i'.upcoming = i.upcoming.unifyLineEnds
  /-- A carriage return in the buffer is what was taken from the source last. -/
  last : '\r' ∉ i.buffer.dropLast

/-- What looks at two inputs find belongs together. -/
def Looks (i i' : Input) : Prop :=
  ∃ r j j', i.peek = (r, j) ∧ i'.peek = (r.map (Option.map unifyReturn), j') ∧ j.Unifies j'

variable {i i' : Input} {c : Char} {name text : String}

theorem Unifies.hold (h : i.Unifies i') (holding : Bool) :
    (i.hold holding).Unifies (i'.hold holding) :=
  ⟨h.pushback, h.expansions, h.maxDepth, h.upcoming, h.last⟩

/-- Looks that get to the sources. -/
theorem looks_of_source (hpushback : i.pushback = none) (hpushback' : i'.pushback = none)
    (htake : takeFirst i.liveExpansions = none)
    (hlive : i'.liveExpansions = i.liveExpansions.map Expansion.unify)
    (hmax : i'.maxDepth = i.maxDepth) (hsource : i'.source = i.source.unifyLineEnds) :
    i.Looks i' := by
  have htext := expansionsText_of_takeFirst_none htake
  have htake' : takeFirst i'.liveExpansions = none := by
    rw [hlive, takeFirst_unify, htake]
    rfl
  have htext' := expansionsText_of_takeFirst_none htake'
  unfold Looks
  rw [peek_of_no_pushback hpushback, peek_of_no_pushback hpushback', htake, htake', hsource]
  cases i.source with
  | nil =>
    refine ⟨.ok none, _, _, rfl, rfl, ⟨?_, hlive, hmax, ?_, ?_⟩⟩
    · simp [hpushback, hpushback']
    · simp [upcoming, hpushback, hpushback', htext, htext', Source.unifyLineEnds,
        Source.joinLineEnds]
    · simp [buffer, hpushback, htext]
  | cons item source =>
    cases item with
    | error failure =>
      have hne : (.error failure : Except ReadFailure Char) ≠ .ok '\r' := by
        intro heq
        cases heq
      rw [Source.unifyLineEnds_cons hne]
      refine ⟨.error failure, _, _, rfl, rfl, ⟨?_, hlive, hmax, ?_, ?_⟩⟩
      · simp [hpushback, hpushback']
      · simp [upcoming, hpushback, hpushback', htext, htext']
      · simp [buffer, hpushback, htext]
    | ok c =>
      -- the second source begins with the same character, or with a line feed for a return
      have hhead : ∃ source', Source.unifyLineEnds (.ok c :: source) =
          .ok (unifyReturn c) :: source' := by
        by_cases hreturn : c = '\r'
        · subst hreturn
          exact ⟨_, Source.unifyLineEnds_return source⟩
        · rw [unifyReturn_of_ne hreturn]
          exact ⟨_, Source.unifyLineEnds_cons (fun heq => hreturn (Except.ok.inj heq)) source⟩
      obtain ⟨source', hsource'⟩ := hhead
      rw [hsource']
      refine ⟨.ok (some c), _, _, rfl, rfl, ⟨rfl, hlive, hmax, ?_, ?_⟩⟩
      · simp [upcoming, htext, htext', hsource']
      · simp [buffer, htext]

/-- Looks at two inputs that belong together find what belongs together. -/
theorem Unifies.peek (h : i.Unifies i') (hholding : i.holding = i'.holding) : i.Looks i' := by
  have hlive : i'.liveExpansions = i.liveExpansions.map Expansion.unify := by
    unfold liveExpansions
    rw [← hholding, h.expansions, dropWhile_unify]
    split <;> rfl
  cases hp : i.pushback with
  | some c =>
    have hp' : i'.pushback = some (unifyReturn c) := by rw [h.pushback, hp, Option.map_some]
    exact ⟨.ok (some c), i, i', peek_of_pushback hp, peek_of_pushback hp', h⟩
  | none =>
    have hp' : i'.pushback = none := by rw [h.pushback, hp, Option.map_none]
    cases htake : takeFirst i.liveExpansions with
    | none =>
      -- the text of all expansions has been read, so only the sources are upcoming
      have htext := expansionsText_of_takeFirst_none htake
      have htext' : expansionsText i'.liveExpansions = [] := by
        rw [hlive, expansionsText_unify, htext]
        rfl
      rw [expansionsText_live] at htext htext'
      refine looks_of_source hp hp' htake hlive h.maxDepth ?_
      simpa [Input.upcoming, hp, hp', htext, htext'] using h.upcoming
    | some p =>
      obtain ⟨c, xs⟩ := p
      have hpeek : i.peek = (.ok (some c), { i with expansions := xs, pushback := some c }) := by
        rw [peek_of_no_pushback hp, htake]
      have hpeek' : i'.peek = (.ok (some (unifyReturn c)),
          { i' with
            expansions := xs.map Expansion.unify
            pushback := some (unifyReturn c) }) := by
        rw [peek_of_no_pushback hp', hlive, takeFirst_unify, htake]
        rfl
      refine ⟨.ok (some c), _, _, hpeek, hpeek', ⟨rfl, rfl, h.maxDepth, ?_, ?_⟩⟩
      · rw [(peek_ok hpeek).1, (peek_ok hpeek').1, h.upcoming]
      · have hbuffer : i.buffer = c :: expansionsText xs := by
          rw [buffer, hp, ← expansionsText_live, expansionsText_of_takeFirst htake]
          rfl
        have hlast := h.last
        rwa [hbuffer] at hlast

/-- Any character but a carriage return is taken from both. -/
theorem Unifies.consume (h : i.Unifies i') (hc : i.pushback = some c) (hne : c ≠ '\r') :
    i.consume.Unifies i'.consume := by
  have hc' : i'.pushback = some c := by rw [h.pushback, hc, Option.map_some, unifyReturn_of_ne hne]
  refine ⟨?_, ?_, ?_, ?_, ?_⟩
  · rw [pushback_consume, pushback_consume, Option.map_none]
  · rw [expansions_consume, expansions_consume, h.expansions]
  · rw [maxDepth_consume, maxDepth_consume, h.maxDepth]
  · have hup := h.upcoming
    rw [upcoming_consume hc, upcoming_consume hc', Source.unifyLineEnds_cons (by simpa using hne)]
      at hup
    exact (List.cons.inj hup).2
  · have hlast := h.last
    have hbuffer : i.buffer = c :: i.consume.buffer := by
      rw [buffer, buffer, hc, pushback_consume, expansions_consume]
      rfl
    rw [hbuffer] at hlast
    refine fun hmem => hlast ?_
    cases htext : i.consume.buffer with
    | nil =>
      rw [htext] at hmem
      cases hmem
    | cons d cs =>
      rw [htext] at hmem
      exact List.mem_cons_of_mem c hmem

/-- The first of two inputs has taken a carriage return, and the second one a line feed for it. -/
structure Returns (i i' : Input) : Prop where
  /-- Nothing is put back in the first input. -/
  pushback : i.pushback = none
  /-- Nothing is put back in the second input. -/
  pushback' : i'.pushback = none
  /-- The text of all expansions of the first input has been read. -/
  text : expansionsText i.expansions = []
  /-- The text of all expansions of the second input has been read. -/
  text' : expansionsText i'.expansions = []
  /-- Entities nest within the same limit. -/
  maxDepth : i'.maxDepth = i.maxDepth
  /-- A line feed that comes next in the first source is missing in the second one. -/
  source : i'.source = i.source.afterReturn.unifyLineEnds

/-- A carriage return has nothing but the source behind it. -/
theorem Unifies.returns (h : i.Unifies i') (hc : i.pushback = some '\r') :
    i.consume.Returns i'.consume := by
  have hc' : i'.pushback = some '\n' := by
    rw [h.pushback, hc]
    rfl
  have htext : expansionsText i.expansions = [] := by
    have hlast := h.last
    rw [buffer, hc] at hlast
    cases htext : expansionsText i.expansions with
    | nil => rfl
    | cons d cs =>
      rw [htext] at hlast
      exact (hlast List.mem_cons_self).elim
  have htext' : expansionsText i'.expansions = [] := by
    rw [h.expansions, expansionsText_unify, htext]
    rfl
  have hup := h.upcoming
  simp only [Input.upcoming, hc, hc', htext, htext', Option.toList_some, List.map_cons,
    List.map_nil, List.append_nil, List.cons_append, List.nil_append,
    Source.unifyLineEnds_return] at hup
  refine ⟨pushback_consume i, pushback_consume i', ?_, ?_, ?_, ?_⟩
  · rw [expansions_consume, htext]
  · rw [expansions_consume, htext']
  · rw [maxDepth_consume, maxDepth_consume, h.maxDepth]
  · rw [source_consume, source_consume]
    exact (List.cons.inj hup).2

/-- An entity is expanded in both inputs, or refused in both for the same reason. -/
theorem Unifies.pushEntity (h : i.Unifies i') (name text : String) (htext : '\r' ∉ text.toList) :
    (∃ j j', i.pushEntity name text = .ok j ∧ i'.pushEntity name text = .ok j' ∧
        j.Unifies j') ∨
      ∃ refusal, i.pushEntity name text = .error refusal ∧
        i'.pushEntity name text = .error refusal := by
  have hany : i'.expansions.any (·.entity == some name) =
      i.expansions.any (·.entity == some name) := by rw [h.expansions, any_entity_unify]
  have hdepth : i'.depth = i.depth := by rw [depth, depth, h.expansions, namedDepth_unify]
  have hboth : (∃ j j', i.pushEntity name text = .ok j ∧ i'.pushEntity name text = .ok j') ∨
      ∃ refusal, i.pushEntity name text = .error refusal ∧
        i'.pushEntity name text = .error refusal := by
    unfold Input.pushEntity
    rw [hany, hdepth, h.maxDepth]
    split
    · exact .inr ⟨_, rfl, rfl⟩
    · split
      · exact .inr ⟨_, rfl, rfl⟩
      · exact .inl ⟨_, _, rfl, rfl⟩
  obtain hrefused | ⟨j, j', hj, hj'⟩ := hboth.symm
  · exact .inr hrefused
  refine .inl ⟨j, j', hj, hj', ?_⟩
  have hcovered : i'.covered = i.covered.map Expansion.unify := by
    rw [covered, covered, h.pushback, h.expansions, List.map_append]
    cases i.pushback <;> rfl
  refine ⟨?_, ?_, ?_, ?_, ?_⟩
  · rw [eq_of_pushEntity hj, eq_of_pushEntity hj']
    rfl
  · rw [eq_of_pushEntity hj, eq_of_pushEntity hj', hcovered, List.map_cons, Expansion.unify,
      map_unifyReturn htext]
  · rw [eq_of_pushEntity hj, eq_of_pushEntity hj', h.maxDepth]
  · rw [upcoming_pushEntity hj, upcoming_pushEntity hj', h.upcoming,
      Source.unifyLineEnds_append htext]
  · rw [(buffer_pushEntity hj).1]
    intro hmem
    cases hbuffer : i.buffer with
    | nil =>
      rw [hbuffer, List.append_nil] at hmem
      exact htext (List.dropLast_subset _ hmem)
    | cons c cs =>
      have hlast := h.last
      rw [hbuffer, List.dropLast_append_cons] at hmem
      rw [hbuffer] at hlast
      exact (List.mem_append.1 hmem).elim htext hlast

/-- Where all that was expanded has been read, inputs belong together if their sources do. -/
theorem looks_of_finished (hpushback : i.pushback = none) (hpushback' : i'.pushback = none)
    (htext : expansionsText i.expansions = []) (htext' : expansionsText i'.expansions = [])
    (hmax : i'.maxDepth = i.maxDepth) (hsource : i'.source = i.source.unifyLineEnds) :
    (i.hold false).Looks (i'.hold false) := by
  have hlive : (i.hold false).liveExpansions = [] := dropWhile_of_expansionsText htext
  have hlive' : (i'.hold false).liveExpansions = [] := dropWhile_of_expansionsText htext'
  refine looks_of_source (i := i.hold false) hpushback hpushback' ?_ ?_ hmax hsource
  · rw [hlive]
    rfl
  · rw [hlive, hlive']
    rfl

/-- After a carriage return the first input is level with the second one once it has taken the line
feed that comes next, or at once if none does. -/
theorem Returns.looks (h : i.Returns i') :
    (∃ j, (i.hold false).peek = (.ok (some '\n'), j) ∧
        (j.consume.hold false).Looks (i'.hold false)) ∨
      (i.hold false).peek.1 ≠ .ok (some '\n') ∧ (i.hold false).Looks (i'.hold false) := by
  have hlive : (i.hold false).liveExpansions = [] := dropWhile_of_expansionsText h.text
  have hsource := h.source
  by_cases hfeed : i.source.head? = some (.ok '\n')
  · left
    obtain ⟨rest, hrest⟩ := List.head?_eq_some_iff.1 hfeed
    rw [hrest] at hsource
    have hsource' : (i.hold false).source = .ok '\n' :: rest := hrest
    rw [peek_of_no_pushback (i := i.hold false) h.pushback, hlive, hsource']
    refine ⟨_, rfl, looks_of_finished (pushback_consume _) h.pushback' ?_ h.text' ?_ ?_⟩
    · rw [expansions_consume]
      rfl
    · rw [maxDepth_consume]
      exact h.maxDepth
    · rw [source_consume]
      exact hsource
  · right
    rw [Source.afterReturn_of_ne hfeed] at hsource
    refine ⟨?_, looks_of_finished h.pushback h.pushback' h.text h.text' h.maxDepth hsource⟩
    rw [peek_of_no_pushback (i := i.hold false) h.pushback, hlive]
    cases hrest : i.source with
    | nil =>
      rw [show (i.hold false).source = [] from hrest]
      intro heq
      cases heq
    | cons item rest =>
      rw [show (i.hold false).source = item :: rest from hrest]
      cases item with
      | error failure =>
        intro heq
        cases heq
      | ok c =>
        intro heq
        cases heq
        exact hfeed (by rw [hrest, List.head?_cons])

end Input

end Markup
