import Markup.Reader.Measure

/-!
# Reading a document

A run repeats the step of the reader until the document ends or a read fails, and lists the
actions of all steps. It always ends, because every step lowers the load of the state. `run_eq`
says what a run does in terms of its first step.
-/

namespace Markup

/-- A trace with actions put before it. -/
def Trace.prepend (actions : List Action) (t : Trace) : Trace :=
  { t with actions := actions ++ t.actions }

namespace Reader

/-- Runs the reader; `done` holds the actions of earlier steps, the last one first. -/
def runAfter (g : Grammar) (s : State) (done : List Action) : Trace :=
  match _h : step g s with
  | (actions, .stopped outcome) => ⟨(actions.reverse ++ done).reverse, outcome⟩
  | (actions, .running t) => runAfter g t (actions.reverse ++ done)
termination_by load g.dtd.longestReplacement s.input s.mode
decreasing_by exact load_step_lt (congrArg Prod.snd _h)

/-- Runs the reader to its end. -/
def run (g : Grammar) (s : State) : Trace :=
  runAfter g s []

/-- Actions that were collected earlier come before those of the run. -/
theorem runAfter_append (g : Grammar) (s : State) (xs ys : List Action) :
    runAfter g s (xs ++ ys) = (runAfter g s xs).prepend ys.reverse := by
  fun_induction runAfter g s xs with
  | case1 s xs actions outcome h =>
    rw [runAfter]
    split
    · rename_i h'
      rw [h] at h'
      cases h'
      simp [Trace.prepend]
    · rename_i h'
      rw [h] at h'
      cases h'
  | case2 s xs actions t h ih =>
    rw [runAfter]
    split
    · rename_i h'
      rw [h] at h'
      cases h'
    · rename_i h'
      rw [h] at h'
      cases h'
      rw [← ih, List.append_assoc]

/-- A run does what its first step does, and then what the run from there does. -/
theorem run_eq (g : Grammar) (s : State) :
    run g s =
      match step g s with
      | (actions, .stopped outcome) => ⟨actions, outcome⟩
      | (actions, .running t) => (run g t).prepend actions := by
  rw [run, runAfter]
  split
  · rename_i h
    simp [h]
  · rename_i actions t h
    have := runAfter_append g t [] actions.reverse
    simp only [List.nil_append, List.reverse_reverse] at this
    simp [h, this, run]

/-- Reads a whole document. -/
def read (g : Grammar) (source : Source) : Trace :=
  run g (.start g source)

end Reader

end Markup
