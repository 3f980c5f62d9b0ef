import Markup.Proofs.Input.Operations
import Mathlib.Data.List.Induction

/-!
# Which lines have been counted

Reads and looks show the characters of a source one after the other, with replacement texts in
between. `Ledger` keeps the account of them: the characters of the source that have been read, the
one that has been looked at, and how many characters of replacement texts come before the next one
of the source. The line of an input is one more than the line ends that have been read
(`follows_performAll`), except while one that was looked at is overtaken by a replacement text: it
is counted with the first read after the look, although that gives another character.
-/

namespace Markup.Input

/-! ## Accounts -/

/-- What the answers to operations show of a source. -/
structure Ledger where
  /-- The characters of the source that have been read. -/
  taken : List Char
  /-- The next character of the source, if it has been looked at. -/
  seen : Option Char
  /-- How many characters of replacement texts come before the next one of the source. -/
  ahead : Nat
  /-- The next character of the source is a line end, and since it was looked at a character of a
  replacement text has been read. -/
  overtaken : Bool
  deriving DecidableEq

namespace Ledger

/-- Before the first operation. -/
def empty : Ledger := ⟨[], none, 0, false⟩

/-- After a read. -/
def read (l : Ledger) (c : Char) : Ledger :=
  if l.ahead = 0 then ⟨l.taken ++ [c], none, 0, false⟩
  else { l with ahead := l.ahead - 1, overtaken := l.seen == some '\n' }

/-- After a look. -/
def look (l : Ledger) (c : Char) : Ledger :=
  if l.ahead = 0 then { l with seen := some c } else l

/-- After an operation that has been answered. -/
def note (l : Ledger) : Operation × Answer → Ledger
  | (.read, .next (some c)) => l.read c
  | (.peek, .next (some c)) => l.look c
  | (.push _ text, .done) => { l with ahead := l.ahead + text.toList.length }
  | _ => l

/-- After operations that have been answered. -/
def ofAnswers (answers : List (Operation × Answer)) : Ledger :=
  answers.foldl note empty

/-- The line on which the next character of the source would be found. -/
def line (l : Ledger) : Nat :=
  1 + l.taken.count '\n'

/-- A character of the source adds to the line if it is a line end. -/
theorem line_append_singleton (taken : List Char) (c : Char) (seen : Option Char) (ahead : Nat)
    (overtaken : Bool) :
    line ⟨taken ++ [c], seen, ahead, overtaken⟩ = 1 + taken.count '\n' + (c == '\n').toNat := by
  rw [line, List.count_append, List.count_singleton]
  cases c == '\n' <;> rfl

/-- The ledger notes answers one by one. -/
theorem ofAnswers_append_singleton (answers : List (Operation × Answer))
    (answered : Operation × Answer) :
    ofAnswers (answers ++ [answered]) = (ofAnswers answers).note answered :=
  List.foldl_append

/-- Among the answers an entity has been expanded after a line end of the source was looked at. -/
def Interposed (answers : List (Operation × Answer)) : Prop :=
  ∃ before name text after, answers = before ++ (.push name text, .done) :: after ∧
    (ofAnswers before).seen = some '\n'

/-- What has been interposed stays so. -/
theorem Interposed.append {answers : List (Operation × Answer)} (h : Interposed answers)
    (more : List (Operation × Answer)) : Interposed (answers ++ more) := by
  obtain ⟨before, name, text, after, rfl, hseen⟩ := h
  exact ⟨before, name, text, after ++ more, by simp, hseen⟩

/-- Where a line end that has been looked at is behind replacement texts, or overtaken by one, an
entity has been expanded since. -/
structure Waits (l : Ledger) (answers : List (Operation × Answer)) : Prop where
  overtaken : l.overtaken = true → Interposed answers
  behind : l.seen = some '\n' → l.ahead ≠ 0 → Interposed answers

/-- Waiting is kept by every answer. -/
theorem Waits.note {l : Ledger} {answers : List (Operation × Answer)} (h : l.Waits answers)
    (hl : ofAnswers answers = l) (answered : Operation × Answer) :
    (l.note answered).Waits (answers ++ [answered]) := by
  have hovertaken (htaken : l.overtaken = true) : Interposed (answers ++ [answered]) :=
    (h.overtaken htaken).append _
  have hbehind (hseen : l.seen = some '\n') (hahead : l.ahead ≠ 0) :
      Interposed (answers ++ [answered]) :=
    (h.behind hseen hahead).append _
  unfold Ledger.note
  split
  · unfold Ledger.read
    split
    · exact ⟨nofun, nofun⟩
    · rename_i hahead
      exact ⟨fun htaken => hbehind (by simpa using htaken) hahead,
        fun hseen _ => hbehind hseen hahead⟩
  · unfold Ledger.look
    split
    · rename_i hahead
      exact ⟨hovertaken, fun _ hne => absurd hahead hne⟩
    · exact ⟨hovertaken, hbehind⟩
  · rename_i name text
    exact ⟨hovertaken, fun hseen _ => ⟨answers, name, text, [], rfl, by rw [hl]; exact hseen⟩⟩
  · exact ⟨hovertaken, hbehind⟩

/-- The ledger of any answers keeps to them. -/
theorem waits_ofAnswers (answers : List (Operation × Answer)) :
    (ofAnswers answers).Waits answers := by
  induction answers using List.reverseRecOn with
  | nil => exact ⟨nofun, nofun⟩
  | append_singleton answers answered ih =>
    rw [ofAnswers_append_singleton]
    exact ih.note rfl answered

end Ledger

/-! ## The buffer -/

/-- The characters that come before those of the source. -/
def buffer (i : Input) : List Char :=
  i.pushback.toList ++ expansionsText i.expansions

/-- Where the next character of an input is taken from. -/
inductive Fetches (i j : Input) : Except ReadFailure (Option Char) → Prop
  /-- From the buffer. -/
  | buffered {c : Char} : i.buffer = c :: j.buffer → j.source = i.source →
      j.lineEndPending = i.lineEndPending → Fetches i j (.ok (some c))
  /-- From the source, if the buffer is empty. -/
  | fetched {c : Char} : i.buffer = [] → j.buffer = [] → i.source = .ok c :: j.source →
      j.lineEndPending = (i.lineEndPending || c == '\n') → Fetches i j (.ok (some c))
  /-- The source is at its end. -/
  | ended : i.buffer = [] → j.buffer = [] → i.source = [] → j.source = [] →
      j.lineEndPending = i.lineEndPending → Fetches i j (.ok none)
  /-- The source fails. -/
  | failed {failure : ReadFailure} : i.buffer = [] → j.buffer = [] →
      i.source = .error failure :: j.source → j.lineEndPending = i.lineEndPending →
      Fetches i j (.error failure)

/-- A fetch takes the next character from the buffer or from the source. -/
theorem fetches (i : Input) : Fetches i i.fetch.2 i.fetch.1 := by
  cases hp : i.pushback with
  | some c =>
    simp only [fetch, hp]
    exact .buffered (by simp [buffer, hp]) rfl rfl
  | none =>
    simp only [fetch, hp]
    cases ht : takeFirst i.liveExpansions with
    | some p =>
      have htext := expansionsText_of_takeFirst ht
      rw [expansionsText_live] at htext
      exact .buffered (by simp [buffer, hp, htext]) rfl rfl
    | none =>
      have htext := expansionsText_of_takeFirst_none ht
      have hbefore : i.buffer = [] := by
        rw [expansionsText_live] at htext
        simp [buffer, hp, htext]
      have hafter (j : Input) (hj : j.pushback = none) (hlive : j.expansions = i.liveExpansions) :
          j.buffer = [] := by
        simp [buffer, hj, hlive, htext]
      cases hs : i.source with
      | nil => exact .ended hbefore (hafter _ rfl rfl) hs rfl rfl
      | cons item source =>
        cases item with
        | error failure => exact .failed hbefore (hafter _ rfl rfl) hs rfl
        | ok c => exact .fetched hbefore (hafter _ rfl rfl) hs rfl

section

variable (i : Input)

/-- A line end that is pending adds a line when it is counted. -/
theorem line_countLine : i.countLine.line = i.line + i.lineEndPending.toNat := by
  unfold countLine
  split
  · rename_i h
    rw [h]
    rfl
  · rename_i h
    rw [Bool.not_eq_true] at h
    rw [h]
    rfl

/-- After counting no line end is pending. -/
theorem lineEndPending_countLine : i.countLine.lineEndPending = false := by
  unfold countLine
  split
  · rfl
  · rename_i h
    exact Bool.not_eq_true _ ▸ h

theorem buffer_countLine : i.countLine.buffer = i.buffer := by
  unfold countLine
  split <;> rfl

theorem source_countLine : i.countLine.source = i.source := by
  unfold countLine
  split <;> rfl

end

/-- A character that is put back comes first. -/
theorem buffer_unread (i : Input) (c : Char) : (i.unread c).buffer = c :: i.buffer := by
  unfold unread
  cases hp : i.pushback with
  | none => simp [buffer, hp]
  | some previous => simp [buffer, hp, expansionsText]

/-- Replacement text comes before the buffer, and the count stays as it was. -/
theorem buffer_pushEntity {i j : Input} {name text : String}
    (h : i.pushEntity name text = .ok j) :
    j.buffer = text.toList ++ i.buffer ∧ j.source = i.source ∧
      j.lineEndPending = i.lineEndPending ∧ j.line = i.line := by
  unfold pushEntity at h
  split at h
  · cases h
  · split at h
    · cases h
    · cases h
      refine ⟨?_, rfl, rfl, rfl⟩
      cases hp : i.pushback <;> simp [buffer, hp, expansionsText]

/-! ## Operations -/

/-- An input over a source keeps to an account. -/
structure Follows (source : Source) (l : Ledger) (i : Input) : Prop where
  /-- Before the rest of the source there are replacement texts, and then the character that has
  been looked at. -/
  buffer : ∃ before, i.buffer = before ++ l.seen.toList ∧ before.length = l.ahead
  /-- The characters that have been read or looked at are the first of the source. -/
  source : source.characters = l.taken ++ (l.seen.toList ++ i.source.characters)
  /-- Only a line end that has been looked at is overtaken. -/
  overtaken : l.overtaken = true → l.seen = some '\n'
  /-- A line end that has been looked at is pending until it is overtaken. -/
  pending : i.lineEndPending = (l.seen == some '\n' && !l.overtaken)
  /-- A line end that is overtaken is counted before it has been read. -/
  line : i.line = l.line + l.overtaken.toNat

/-- A new input follows the empty ledger. -/
theorem follows_ofSource (source : Source) (maxDepth : Nat) :
    Follows source .empty (ofSource source maxDepth) :=
  ⟨⟨[], rfl, rfl⟩, rfl, nofun, rfl, rfl⟩

namespace Follows

variable {source : Source} {l : Ledger} {i j : Input} {c : Char} {name text : String}

/-- Where the buffer is empty, nothing of the source has been looked at. -/
theorem of_buffer_nil (h : Follows source l i) (hnil : i.buffer = []) :
    l.seen = none ∧ l.ahead = 0 ∧ l.overtaken = false ∧ i.lineEndPending = false := by
  obtain ⟨before, hbuffer, hlength⟩ := h.buffer
  rw [hnil] at hbuffer
  obtain ⟨rfl, hseen⟩ := List.append_eq_nil_iff.1 hbuffer.symm
  have hseen : l.seen = none := by simpa using hseen
  have hovertaken : l.overtaken = false := by
    rw [← Bool.not_eq_true]
    intro hovertaken
    rw [h.overtaken hovertaken] at hseen
    cases hseen
  refine ⟨hseen, hlength.symm, hovertaken, ?_⟩
  rw [h.pending, hseen]
  rfl

/-- The account stays the same where the characters and the lines do. -/
theorem congr (h : Follows source l i) (hbuffer : j.buffer = i.buffer)
    (hsource : j.source.characters = i.source.characters)
    (hpending : j.lineEndPending = i.lineEndPending) (hline : j.line = i.line) :
    Follows source l j :=
  ⟨by rw [hbuffer]; exact h.buffer, by rw [hsource]; exact h.source, h.overtaken,
    hpending.trans h.pending, hline.trans h.line⟩

/-- A look that gives no character changes nothing. -/
theorem fetch_nothing {r : Except ReadFailure (Option Char)} (h : Follows source l i)
    (hfetch : Fetches i j r) (hr : r.toOption.join = none) (hline : j.line = i.line) :
    Follows source l j ∧ j.lineEndPending = false := by
  cases hfetch with
  | buffered => cases hr
  | fetched => cases hr
  | ended hbefore hafter hi hj hpending =>
    obtain ⟨-, -, -, hnone⟩ := h.of_buffer_nil hbefore
    exact ⟨h.congr (hafter.trans hbefore.symm) (by rw [hi, hj]) hpending hline,
      hpending.trans hnone⟩
  | failed hbefore hafter hsource hpending =>
    obtain ⟨-, -, -, hnone⟩ := h.of_buffer_nil hbefore
    exact ⟨h.congr (hafter.trans hbefore.symm) (by rw [hsource]; rfl) hpending hline,
      hpending.trans hnone⟩

/-- Where nothing is ahead and the buffer is not empty, it is what has been looked at. -/
theorem seen_of_ahead (h : Follows source l i) (hahead : l.ahead = 0) {cs : List Char}
    (hbuffer : i.buffer = c :: cs) : l.seen = some c ∧ cs = [] := by
  obtain ⟨before, hsplit, hlength⟩ := h.buffer
  rw [hahead] at hlength
  rw [List.length_eq_zero_iff.1 hlength, hbuffer] at hsplit
  cases hseen : l.seen with
  | none => rw [hseen] at hsplit; cases hsplit
  | some d =>
    rw [hseen] at hsplit
    cases hsplit
    exact ⟨rfl, rfl⟩

/-- After a look the input follows the ledger that notes it. -/
theorem look (h : Follows source l i) (hfetch : Fetches i j (.ok (some c)))
    (hline : j.line = i.line) : Follows source (l.look c) (j.unread c) := by
  have hunread : (j.unread c).source = j.source ∧
      (j.unread c).lineEndPending = j.lineEndPending := by
    unfold unread
    split <;> exact ⟨rfl, rfl⟩
  have hline' : (j.unread c).line = i.line := (line_unread j c).trans hline
  cases hfetch with
  | buffered hbuffer hsource hpending =>
    -- the character is the first of the buffer as before
    have hsame : l.look c = l := by
      by_cases hahead : l.ahead = 0
      · have hseen := (h.seen_of_ahead hahead hbuffer).1
        rw [Ledger.look, if_pos hahead, ← hseen]
      · rw [Ledger.look, if_neg hahead]
    rw [hsame]
    exact h.congr ((buffer_unread j c).trans hbuffer.symm) (by rw [hunread.1, hsource])
      (hunread.2.trans hpending) hline'
  | fetched hbefore hafter hsource hpending =>
    obtain ⟨hseen, hahead, hovertaken, hnone⟩ := h.of_buffer_nil hbefore
    have hlook : l.look c = { l with seen := some c } := if_pos hahead
    rw [hlook]
    refine ⟨⟨[], ?_, hahead.symm⟩, ?_, ?_, ?_, ?_⟩
    · rw [buffer_unread, hafter]
      rfl
    · have hcharacters := h.source
      rw [hseen, hsource] at hcharacters
      rw [hunread.1, hcharacters]
      rfl
    · intro htaken
      rw [hovertaken] at htaken
      cases htaken
    · rw [hunread.2, hpending, hnone, hovertaken]
      simp
    · rw [hline', h.line]
      rfl

/-- A line end that has been looked at is either overtaken or pending. -/
theorem overtaken_add_pending (h : Follows source l i) :
    l.overtaken.toNat + i.lineEndPending.toNat = (l.seen == some '\n').toNat := by
  rw [h.pending]
  cases htaken : l.overtaken with
  | false => simp
  | true =>
    rw [h.overtaken htaken]
    rfl

/-- The next character of the source is read, whether it has been looked at before or not. -/
theorem take (h : Follows source l i) (hahead : l.ahead = 0) (hbuffer : j.buffer = [])
    (hsource : l.seen.toList ++ i.source.characters = c :: j.source.characters)
    (hline : j.line = i.line)
    (hpending : l.overtaken.toNat + j.lineEndPending.toNat = (c == '\n').toNat) :
    Follows source (l.read c) j.countLine := by
  have hread : l.read c = ⟨l.taken ++ [c], none, 0, false⟩ := if_pos hahead
  rw [hread]
  refine ⟨⟨[], ?_, rfl⟩, ?_, nofun, lineEndPending_countLine j, ?_⟩
  · rw [buffer_countLine, hbuffer]
    rfl
  · rw [source_countLine, h.source, hsource, List.append_assoc]
    rfl
  · rw [line_countLine, hline, h.line, Nat.add_assoc, hpending, Ledger.line_append_singleton]
    rfl

/-- A character of a replacement text is read. -/
theorem takeAhead (h : Follows source l i) (hahead : l.ahead ≠ 0)
    (hbuffer : i.buffer = c :: j.buffer) (hsource : j.source = i.source)
    (hpending : j.lineEndPending = i.lineEndPending) (hline : j.line = i.line) :
    Follows source (l.read c) j.countLine := by
  have hread : l.read c = { l with
      ahead := l.ahead - 1, overtaken := l.seen == some '\n' } := if_neg hahead
  obtain ⟨before, hsplit, hlength⟩ := h.buffer
  obtain ⟨x, before, rfl⟩ : ∃ x more, before = x :: more := by
    refine List.exists_cons_of_ne_nil ?_
    rintro rfl
    exact hahead hlength.symm
  rw [hbuffer, List.cons_append] at hsplit
  rw [hread]
  refine ⟨⟨before, ?_, ?_⟩, ?_, fun htaken => by simpa using htaken, ?_, ?_⟩
  · rw [buffer_countLine, (List.cons.inj hsplit).2]
  · rw [← hlength]
    rfl
  · rw [source_countLine, hsource]
    exact h.source
  · rw [lineEndPending_countLine, Bool.and_not_self]
  · rw [line_countLine, hline, hpending, h.line, Nat.add_assoc, h.overtaken_add_pending]
    rfl

/-- After a read the input follows the ledger that notes it. -/
theorem read (h : Follows source l i) (hfetch : Fetches i j (.ok (some c)))
    (hline : j.line = i.line) : Follows source (l.read c) j.countLine := by
  cases hfetch with
  | fetched hbefore hafter hsource hpending =>
    obtain ⟨hseen, hahead, hovertaken, hnone⟩ := h.of_buffer_nil hbefore
    refine h.take hahead hafter (by rw [hseen, hsource]; rfl) hline ?_
    rw [hovertaken, hpending, hnone]
    exact Nat.zero_add _
  | buffered hbuffer hsource hpending =>
    by_cases hahead : l.ahead = 0
    · obtain ⟨hseen, hnil⟩ := h.seen_of_ahead hahead hbuffer
      refine h.take hahead hnil (by rw [hseen, hsource]; rfl) hline ?_
      rw [hpending, h.overtaken_add_pending, hseen, Option.some_beq_some]
    · exact h.takeAhead hahead hbuffer hsource hpending hline

/-- Holding expansions changes nothing that the ledger notes. -/
theorem hold (h : Follows source l i) (holding : Bool) : Follows source l (i.hold holding) :=
  h.congr rfl rfl rfl rfl

/-- After an expansion the input follows the ledger that notes its length. -/
theorem push (h : Follows source l i) (hpush : i.pushEntity name text = .ok j) :
    Follows source { l with ahead := l.ahead + text.toList.length } j := by
  obtain ⟨before, hbuffer, hlength⟩ := h.buffer
  obtain ⟨hj, hsource, hpending, hline⟩ := buffer_pushEntity hpush
  refine ⟨⟨text.toList ++ before, ?_, ?_⟩, ?_, h.overtaken, ?_, ?_⟩
  · rw [hj, hbuffer, List.append_assoc]
  · rw [List.length_append, hlength, Nat.add_comm]
  · rw [hsource, h.source]
  · rw [hpending, h.pending]
  · rw [hline, h.line]
    rfl

end Follows

/-! ## Runs of operations -/

/-- Whether an operation puts a character back. -/
def Operation.isUnread : Operation → Bool
  | .unread _ => true
  | _ => false

/-- Nothing is counted while no line end is pending. -/
theorem countLine_of_not_pending {i : Input} (h : i.lineEndPending = false) :
    i.countLine = i := by
  rw [countLine, h]
  rfl

/-- An operation that puts nothing back keeps to the account that its answer goes into. -/
theorem Follows.perform {source : Source} {l : Ledger} {i : Input} (h : Follows source l i)
    {op : Operation} (hop : op.isUnread = false) :
    Follows source (l.note (op, (i.perform op).1)) (i.perform op).2 := by
  have hfetches := i.fetches
  have hline := i.line_fetch
  rcases hfetch : i.fetch with ⟨r, j⟩
  rw [hfetch] at hfetches hline
  cases op with
  | read =>
    rcases r with failure | _ | c
    · have hread : i.read = (.error failure, j) := by simp only [Input.read, hfetch]
      simp only [Input.perform, hread]
      exact (h.fetch_nothing hfetches rfl hline).1
    · have hnothing := h.fetch_nothing hfetches rfl hline
      have hread : i.read = (.ok none, j) := by
        simp only [Input.read, hfetch, countLine_of_not_pending hnothing.2]
      simp only [Input.perform, hread]
      exact hnothing.1
    · have hread : i.read = (.ok (some c), j.countLine) := by simp only [Input.read, hfetch]
      simp only [Input.perform, hread]
      exact h.read hfetches hline
  | peek =>
    rcases r with failure | _ | c
    · have hpeek : i.peek = (.error failure, j) := by simp only [Input.peek, hfetch]
      simp only [Input.perform, hpeek]
      exact (h.fetch_nothing hfetches rfl hline).1
    · have hpeek : i.peek = (.ok none, j) := by simp only [Input.peek, hfetch]
      simp only [Input.perform, hpeek]
      exact (h.fetch_nothing hfetches rfl hline).1
    · have hpeek : i.peek = (.ok (some c), j.unread c) := by simp only [Input.peek, hfetch]
      simp only [Input.perform, hpeek]
      exact h.look hfetches hline
  | unread c => cases hop
  | push name text =>
    rcases hpush : i.pushEntity name text with refusal | k
    · simp only [Input.perform, hpush]
      exact h
    · simp only [Input.perform, hpush]
      exact h.push hpush
  | hold holding => exact h.hold holding

/-- A run of operations that put nothing back keeps to the account of its answers. -/
theorem follows_performAll (source : Source) (maxDepth : Nat) {ops : List Operation}
    (hops : ∀ op ∈ ops, op.isUnread = false) :
    Follows source (.ofAnswers ((ofSource source maxDepth).performAll ops).1)
      ((ofSource source maxDepth).performAll ops).2 := by
  have hrun : ∀ (l : Ledger) (i : Input), Follows source l i →
      Follows source ((i.performAll ops).1.foldl Ledger.note l) (i.performAll ops).2 := by
    induction ops with
    | nil => exact fun l i h => h
    | cons op ops ih =>
      intro l i h
      obtain ⟨hop, hops⟩ := List.forall_mem_cons.1 hops
      exact ih hops _ _ (h.perform hop)
  exact hrun .empty _ (follows_ofSource source maxDepth)

end Markup.Input
