import Markup.Input.Source

/-!
# Input with expansions

While a document is read, the replacement texts of entities are read in place of the references to
them. The input is the caller's source with a stack of such expansions above it and one character
that was looked at and put back. Characters come from the character put back, then from the
innermost expansion with text left, then from the source. An expansion that has been read to its
end is dropped by the next read, except while the input is held: then it stays and is passed over,
so that a reference which began inside it is still seen to be inside it.
-/

namespace Markup

/-- Text that is read before the rest of the input. -/
structure Expansion where
  /-- The entity that the text replaces; `none` for a character that was put back and then
  covered. -/
  entity : Option String
  /-- The text that has not been read. -/
  rest : List Char
  deriving DecidableEq, Repr

/-- Why an entity is not expanded. -/
inductive Refusal where
  /-- It is being expanded already. -/
  | recursive
  /-- Too many entities are being expanded. -/
  | tooDeep (limit : Nat)
  deriving DecidableEq, Repr

/-- The wording of a refusal. -/
def Refusal.message : Refusal → String
  | .recursive => "it refers to itself"
  | .tooDeep limit => "expansions nest deeper than " ++ toString limit

/-- The number of expansions that replace an entity. -/
def namedDepth (expansions : List Expansion) : Nat :=
  expansions.countP (·.entity.isSome)

/-- The first unread character of a stack of expansions, innermost first, and the stack without
it. -/
def takeFirst : List Expansion → Option (Char × List Expansion)
  | [] => none
  | x :: xs =>
    match x.rest with
    | c :: rest => some (c, { x with rest } :: xs)
    | [] => (takeFirst xs).map fun (c, xs) => (c, x :: xs)

/-- A source, the expansions above it and a character put back. -/
structure Input where
  /-- The unread part of the caller's source. -/
  source : Source
  /-- The expansions, innermost first. -/
  expansions : List Expansion
  /-- The character put back. -/
  pushback : Option Char
  /-- The line of the caller's source, counted from one. -/
  line : Nat
  /-- A line end has left the source and has not been counted. -/
  lineEndPending : Bool
  /-- How many entities may be expanded inside each other. -/
  maxDepth : Nat
  /-- Expansions read to their end are kept. -/
  holding : Bool

namespace Input

/-- The input that reads a source from its start. -/
def ofSource (source : Source) (maxDepth : Nat) : Input :=
  ⟨source, [], none, 1, false, maxDepth, false⟩

/-- The number of entities that are being expanded. -/
def depth (i : Input) : Nat :=
  namedDepth i.expansions

/-- The expansions that the next read finds. -/
def liveExpansions (i : Input) : List Expansion :=
  if i.holding then i.expansions else i.expansions.dropWhile (·.rest.isEmpty)

/-- Takes the next character off the input without counting its line end. -/
def fetch (i : Input) : Except ReadFailure (Option Char) × Input :=
  match i.pushback with
  | some c => (.ok (some c), { i with pushback := none })
  | none =>
    match takeFirst i.liveExpansions with
    | some (c, expansions) => (.ok (some c), { i with expansions })
    | none =>
      let i := { i with expansions := i.liveExpansions }
      match i.source with
      | [] => (.ok none, i)
      | .error failure :: source => (.error failure, { i with source })
      | .ok c :: source =>
        (.ok (some c), { i with source, lineEndPending := i.lineEndPending || c == '\n' })

/-- Counts the line end that has left the source. -/
def countLine (i : Input) : Input :=
  if i.lineEndPending then { i with line := i.line + 1, lineEndPending := false } else i

/-- Reads the next character; `none` stands for the end of the input. -/
def read (i : Input) : Except ReadFailure (Option Char) × Input :=
  match i.fetch with
  | (.ok c, i) => (.ok c, i.countLine)
  | (.error failure, i) => (.error failure, i)

/-- Puts a character back, so that it is the next one. -/
def unread (i : Input) (c : Char) : Input :=
  match i.pushback with
  | none => { i with pushback := some c }
  | some previous =>
    { i with pushback := some c, expansions := ⟨none, [previous]⟩ :: i.expansions }

/-- Looks at the next character and leaves it in place; its line end is counted when it is
read. -/
def peek (i : Input) : Except ReadFailure (Option Char) × Input :=
  match i.fetch with
  | (.ok (some c), i) => (.ok (some c), i.unread c)
  | r => r

/-- Reads the character that was looked at last. -/
def consume (i : Input) : Input :=
  { i with pushback := none }.countLine

/-- Keeps expansions that have been read to their end, or stops keeping them. -/
def hold (i : Input) (holding : Bool) : Input :=
  { i with holding }

/-- Reads the replacement text of an entity next, unless the entity is being expanded already or
would be expanded too deeply. A character put back comes after the text. -/
def pushEntity (i : Input) (name text : String) : Except Refusal Input :=
  if i.expansions.any (·.entity == some name) then .error .recursive
  else if i.maxDepth ≤ i.depth then .error (.tooDeep i.maxDepth)
  else
    let expansions :=
      match i.pushback with
      | none => i.expansions
      | some c => ⟨none, [c]⟩ :: i.expansions
    .ok { i with pushback := none, expansions := ⟨some name, text.toList⟩ :: expansions }

/-! ## Equations -/

/-- A character that was put back is the next one. -/
theorem peek_of_pushback {i : Input} {c : Char} (h : i.pushback = some c) :
    i.peek = (.ok (some c), i) := by
  cases i
  simp only at h
  subst h
  rfl

/-- With nothing put back, the next character comes from the expansions or from the source, and is
put back. -/
theorem peek_of_no_pushback {i : Input} (h : i.pushback = none) :
    i.peek =
      match takeFirst i.liveExpansions with
      | some (c, expansions) => (.ok (some c), { i with expansions, pushback := some c })
      | none =>
        match i.source with
        | [] => (.ok none, { i with expansions := i.liveExpansions })
        | .error failure :: source =>
          (.error failure, { i with expansions := i.liveExpansions, source })
        | .ok c :: source =>
          (.ok (some c),
            { i with
              expansions := i.liveExpansions
              source
              lineEndPending := i.lineEndPending || c == '\n'
              pushback := some c }) := by
  simp only [peek, fetch, h]
  cases takeFirst i.liveExpansions with
  | some p => simp [unread]
  | none =>
    cases i.source with
    | nil => rfl
    | cons item source => cases item <;> simp [unread]

/-- Reading is looking at the next character and consuming it. -/
theorem read_of_peek {i j : Input} {c : Char} (h : i.peek = (.ok (some c), j)) :
    i.read = (.ok (some c), j.consume) := by
  cases hp : i.pushback with
  | some d =>
    rw [peek_of_pushback hp] at h
    simp only [Prod.mk.injEq, Except.ok.injEq, Option.some.injEq] at h
    obtain ⟨rfl, rfl⟩ := h
    simp [read, fetch, hp, consume]
  | none =>
    rw [peek_of_no_pushback hp] at h
    simp only [read, fetch, hp]
    cases ht : takeFirst i.liveExpansions with
    | some p =>
      simp only [ht, Prod.mk.injEq, Except.ok.injEq, Option.some.injEq] at h
      obtain ⟨rfl, rfl⟩ := h
      simp [consume, ← hp]
    | none =>
      simp only [ht] at h
      cases hs : i.source with
      | nil => simp [hs] at h
      | cons item source =>
        cases item with
        | error failure => simp [hs] at h
        | ok d =>
          simp only [hs, Prod.mk.injEq, Except.ok.injEq, Option.some.injEq] at h
          obtain ⟨rfl, rfl⟩ := h
          simp [consume, ← hp]

end Input

end Markup
