import Mathlib.Data.List.Induction
import Markup.Proofs.Events.Tags
import Markup.Proofs.Rereading.EndTags

/-!
# What a writer keeps in mind

Besides its output a writer keeps two marks: that the innermost element is raw, and that the text
written last ends with a line end. Both are told by the events that it has received
(`raw_foldl`, `lineEndPending_foldl`), and both show in what it writes next. A writer that takes the
innermost element for raw writes a text as it is up to the next tag, which is shorter by four
characters for each character that should have been escaped; a writer with a line end pending puts
one before an end tag and before the end of the document. So what a writer appends for events is
their markup unless one of the marks is set and shows (`appended_eq_markup_iff`).
-/

namespace Markup

/-! ## Marks -/

/-- The last tag begins an element whose text is written as it is. -/
def leavesRaw (events : List Event) : Bool :=
  match (tagEvents events).getLast? with
  | some (.startTag e _) => e.content == .cdata
  | _ => false

/-- The last event is a text that ends with a line end. -/
def leavesLineEnd (events : List Event) : Bool :=
  match events.getLast? with
  | some (.characterData text false) => endsLine text
  | _ => false

/-- A text before the first tag is not written as it is. -/
def opensEscaped (events : List Event) : Bool :=
  (events.takeWhile fun event => !event.isTag).any fun
    | .characterData text false => Writer.escape Writer.escapeInText text != text
    | _ => false

/-- The first event is an end tag or the end of the document. -/
def opensWithEnd (events : List Event) : Bool :=
  match events.head? with
  | some (.endTag _) | some .finished => true
  | _ => false

namespace Writer

variable {w : Writer} {text : String}

/-- Whether text is raw after an event is told by a tag, and by nothing else. -/
theorem raw_write (w : Writer) (event : Event) :
    (w.write event).raw = if event.isTag then leavesRaw [event] else w.raw := by
  cases event with
  | startTag e attributes => rfl
  | endTag e =>
    show (w.endTag e).raw = false
    unfold endTag
    split <;> rfl
  | characterData text nonBreaking => cases nonBreaking <;> rfl
  | finished => rfl

/-- Whether a line end is pending after an event is told by the event. -/
theorem lineEndPending_write (w : Writer) (event : Event) :
    (w.write event).lineEndPending = leavesLineEnd [event] := by
  cases event with
  | startTag e attributes => rfl
  | endTag e =>
    show (w.endTag e).lineEndPending = false
    unfold endTag
    split <;> rfl
  | characterData text nonBreaking => cases nonBreaking <;> rfl
  | finished => rfl

/-- The last tag tells whether text is raw. -/
theorem raw_foldl (hw : w.raw = false) (events : List Event) :
    (events.foldl write w).raw = leavesRaw events := by
  induction events using List.reverseRecOn with
  | nil => exact hw
  | append_singleton events event ih =>
    rw [List.foldl_append, List.foldl_cons, List.foldl_nil, raw_write, ih]
    cases htag : event.isTag with
    | true => simp [leavesRaw, tagEvents, htag]
    | false => simp [leavesRaw, tagEvents, htag]

/-- The last event tells whether a line end is pending. -/
theorem lineEndPending_foldl (hw : w.lineEndPending = false) (events : List Event) :
    (events.foldl write w).lineEndPending = leavesLineEnd events := by
  induction events using List.reverseRecOn with
  | nil => exact hw
  | append_singleton events event =>
    rw [List.foldl_append, List.foldl_cons, List.foldl_nil, lineEndPending_write]
    simp [leavesLineEnd]

/-! ## What is appended -/

/-- What a writer writes for events after what it has written before. -/
def appended (w : Writer) (events : List Event) : String :=
  (events.foldl write { w with output := "" }).output

/-- The writer with something written before all that it has written. -/
def after (w : Writer) (out : String) : Writer :=
  { w with output := out ++ w.output }

/-- A pending line end is settled whatever has been written before. -/
theorem settleLineEnd_after (w : Writer) (out : String) :
    (w.after out).settleLineEnd = w.settleLineEnd.after out := by
  unfold settleLineEnd after
  cases w.lineEndPending <;> simp [String.append_assoc]

/-- What has been written before does not matter for an event. -/
theorem write_after (w : Writer) (out : String) (event : Event) :
    (w.after out).write event = (w.write event).after out := by
  cases event with
  | startTag e attributes =>
    show (w.after out).startTag e attributes = (w.startTag e attributes).after out
    simp [startTag, after, String.append_assoc]
  | endTag e =>
    show (w.after out).endTag e = (w.endTag e).after out
    by_cases hempty : e.content = .empty
    · simp only [endTag, settleLineEnd_after, if_pos hempty]
      rfl
    · simp only [endTag, settleLineEnd_after, if_neg hempty]
      simp [after, String.append_assoc]
  | characterData text nonBreaking =>
    show (w.after out).characterData text nonBreaking =
      (w.characterData text nonBreaking).after out
    cases nonBreaking with
    | true => simp [characterData, after, String.append_assoc]
    | false => exact congrArg (Writer.mk · w.raw _) (String.append_assoc ..)
  | finished => exact settleLineEnd_after w out

/-- What has been written before does not matter for any events. -/
theorem foldl_after (w : Writer) (out : String) (events : List Event) :
    events.foldl write (w.after out) = (events.foldl write w).after out := by
  induction events generalizing w with
  | nil => rfl
  | cons event events ih => rw [List.foldl_cons, write_after, ih, List.foldl_cons]

/-- A writer has written its output after nothing. -/
theorem after_output (w : Writer) : ({ w with output := "" } : Writer).after w.output = w := by
  unfold after
  simp

/-- A writer appends to what it has written. -/
theorem output_foldl (w : Writer) (events : List Event) :
    (events.foldl write w).output = w.output ++ w.appended events := by
  have h := foldl_after { w with output := "" } w.output events
  rw [after_output] at h
  rw [h]
  rfl

/-! The events one by one: a start tag makes both marks anew, an end tag and the end of the document
settle the line end, and the others leave it to the text. -/

section

variable (raw line : Bool) (events : List Event)

/-- A start tag settles what was left by an earlier document. -/
theorem appended_startTag (e : Element) (attributes : Attributes) :
    appended ⟨"", raw, line⟩ (.startTag e attributes :: events) =
      markup (.startTag e attributes :: events) := rfl

/-- Before an end tag a line end that is pending is written. -/
theorem appended_endTag (e : Element) :
    appended ⟨"", raw, line⟩ (.endTag e :: events) =
      (if line then "\n" else "") ++ markup (.endTag e :: events) := by
  have hwrite : write ⟨"", raw, line⟩ (.endTag e) =
      (write empty (.endTag e)).after (if line then "\n" else "") := by
    rw [← write_after]
    cases line <;> rfl
  show ((events.foldl write (write ⟨"", raw, line⟩ (.endTag e))).output) = _
  rw [hwrite, foldl_after]
  rfl

/-- Text before the first tag is written raw if the last element was. -/
theorem appended_text (text : String) :
    appended ⟨"", raw, line⟩ (.characterData text false :: events) =
      (if raw then text else escape escapeInText text) ++
        appended ⟨"", raw, endsLine text⟩ events := by
  have h := output_foldl (write ⟨"", raw, line⟩ (.characterData text false)) events
  rw [show (write ⟨"", raw, line⟩ (.characterData text false)).output =
    "" ++ if raw then text else escape escapeInText text from rfl, String.empty_append] at h
  exact h

/-- A space is written the same in every state, and drops a pending line end. -/
theorem appended_space (text : String) :
    appended ⟨"", raw, line⟩ (.characterData text true :: events) =
      "&nbsp;" ++ appended ⟨"", raw, false⟩ events :=
  output_foldl (write ⟨"", raw, line⟩ (.characterData text true)) events

/-- Before the end of the document a line end that is pending is written. -/
theorem appended_finished :
    appended ⟨"", raw, line⟩ (.finished :: events) =
      (if line then "\n" else "") ++ appended ⟨"", raw, false⟩ events := by
  have h := output_foldl (write ⟨"", raw, line⟩ .finished) events
  cases line <;> exact h

end

/-! ## Where the marks show -/

/-- How many characters of a text are escaped. -/
def escapedCount (text : String) : Nat :=
  text.toList.countP fun c => escapeInText c != String.singleton c

/-- An escaped character is written as five. -/
theorem length_escapeInText (c : Char) :
    (escapeInText c).toList.length =
      1 + if escapeInText c != String.singleton c then 4 else 0 := by
  by_cases hsame : escapeInText c = String.singleton c
  · simp [hsame]
  · have hne : (escapeInText c != String.singleton c) = true := by simpa using hsame
    rw [if_pos hne]
    unfold escapeInText at hsame ⊢
    split_ifs at hsame ⊢
    all_goals first | rfl | exact (hsame rfl).elim

/-- Each character that is escaped takes four more. -/
theorem length_escape (text : String) :
    (escape escapeInText text).length = text.length + 4 * escapedCount text := by
  have hlist (cs : List Char) : (cs.flatMap fun c => (escapeInText c).toList).length =
      cs.length + 4 * cs.countP fun c => escapeInText c != String.singleton c := by
    induction cs with
    | nil => rfl
    | cons c cs ih =>
      rw [List.flatMap_cons, List.length_append, ih, length_escapeInText, List.length_cons,
        List.countP_cons]
      split <;> omega
  rw [← String.length_toList, Reader.toList_escape, hlist, String.length_toList]
  rfl

/-- A text in which nothing is escaped is written as it is. -/
theorem escape_eq_self (h : escapedCount text = 0) : escape escapeInText text = text := by
  have hlist (cs : List Char) (hcs : ∀ c ∈ cs, escapeInText c = String.singleton c) :
      (cs.flatMap fun c => (escapeInText c).toList) = cs := by
    induction cs with
    | nil => rfl
    | cons c cs ih =>
      obtain ⟨hc, hcs⟩ := List.forall_mem_cons.1 hcs
      rw [List.flatMap_cons, hc, ih hcs, String.toList_singleton]
      rfl
  apply String.toList_injective
  rw [Reader.toList_escape]
  refine hlist _ fun c hc => ?_
  have hall := List.countP_eq_zero.1 h c hc
  simpa using hall

/-- A pending line end is written before an end and otherwise forgotten. -/
theorem appended_pending (raw : Bool) (events : List Event) :
    appended ⟨"", raw, true⟩ events =
      (if opensWithEnd events then "\n" else "") ++ appended ⟨"", raw, false⟩ events := by
  cases events with
  | nil => rfl
  | cons event events =>
    cases event with
    | startTag e attributes => simp [opensWithEnd, appended_startTag]
    | endTag e => simp [opensWithEnd, appended_endTag]
    | characterData text nonBreaking =>
      cases nonBreaking <;> simp [opensWithEnd, appended_text, appended_space]
    | finished => simp [opensWithEnd, appended_finished]

/-- Text that is taken for raw is shorter than the markup of text. -/
theorem appended_raw (line : Bool) (events : List Event) :
    ∃ n, (appended ⟨"", false, line⟩ events).length =
        (appended ⟨"", true, line⟩ events).length + 4 * n ∧
      (opensEscaped events = true → 0 < n) ∧
      (opensEscaped events = false →
        appended ⟨"", true, line⟩ events = appended ⟨"", false, line⟩ events) := by
  induction events generalizing line with
  | nil => exact ⟨0, rfl, nofun, fun _ => rfl⟩
  | cons event events ih =>
    -- a tag makes the mark anew, and any other event leaves it to the events behind it
    cases event with
    | startTag e attributes => exact ⟨0, rfl, nofun, fun _ => rfl⟩
    | endTag e => exact ⟨0, rfl, nofun, fun _ => rfl⟩
    | characterData text nonBreaking =>
      cases nonBreaking with
      | true =>
        obtain ⟨n, hlength, hsome, hnone⟩ := ih false
        refine ⟨n, ?_, hsome, fun h => ?_⟩
        · rw [appended_space, appended_space, String.length_append, String.length_append, hlength]
          omega
        · rw [appended_space, appended_space, hnone h]
      | false =>
        obtain ⟨n, hlength, hsome, hnone⟩ := ih (endsLine text)
        have hopens : opensEscaped (.characterData text false :: events) =
            (escape escapeInText text != text || opensEscaped events) := rfl
        refine ⟨escapedCount text + n, ?_, fun h => ?_, fun h => ?_⟩
        · rw [appended_text, appended_text, if_neg (by decide), if_pos rfl, String.length_append,
            String.length_append, hlength, length_escape]
          omega
        · rw [hopens, Bool.or_eq_true, bne_iff_ne] at h
          rcases h with h | h
          · have hcount : escapedCount text ≠ 0 := fun hzero => h (escape_eq_self hzero)
            omega
          · have hn := hsome h
            omega
        · rw [hopens, Bool.or_eq_false_iff, bne_eq_false_iff_eq] at h
          rw [appended_text, appended_text, if_pos rfl, if_neg (by decide), h.1, hnone h.2]
    | finished =>
      obtain ⟨n, hlength, hsome, hnone⟩ := ih false
      refine ⟨n, ?_, hsome, fun h => ?_⟩
      · rw [appended_finished, appended_finished, String.length_append, String.length_append,
          hlength]
        omega
      · rw [appended_finished, appended_finished, hnone h]

/-- What a writer appends for events is their markup, unless one of its marks shows. -/
theorem appended_eq_markup_iff (w : Writer) (events : List Event) :
    w.appended events = markup events ↔
      ¬(w.raw = true ∧ opensEscaped events = true ∨
        w.lineEndPending = true ∧ opensWithEnd events = true) := by
  obtain ⟨output, raw, line⟩ := w
  show appended ⟨"", raw, line⟩ events = appended ⟨"", false, false⟩ events ↔
    ¬(raw = true ∧ opensEscaped events = true ∨ line = true ∧ opensWithEnd events = true)
  obtain ⟨n, hlength, hsome, hnone⟩ := appended_raw false events
  have hpending : appended ⟨"", raw, line⟩ events =
      (if line && opensWithEnd events then "\n" else "") ++ appended ⟨"", raw, false⟩ events := by
    cases line with
    | true => exact appended_pending raw events
    | false => exact String.empty_append.symm
  rw [hpending]
  constructor
  · -- text taken for raw lacks four characters each, which the line end cannot make up for
    intro heq
    have hsame := congrArg String.length heq
    rw [String.length_append] at hsame
    rintro (⟨rfl, hopens⟩ | ⟨rfl, hends⟩)
    · have hn := hsome hopens
      have hone : (if line && opensWithEnd events then "\n" else "").length ≤ 1 := by
        split <;> decide
      omega
    · rw [hends, Bool.and_self, if_pos rfl, show "\n".length = 1 from rfl] at hsame
      cases raw with
      | true => omega
      | false => omega
  · intro hneither
    rw [not_or, not_and, not_and, Bool.not_eq_true, Bool.not_eq_true] at hneither
    have hquiet : (line && opensWithEnd events) = false := by
      cases line with
      | true => exact hneither.2 rfl
      | false => rfl
    rw [hquiet, if_neg (by decide), String.empty_append]
    cases raw with
    | true => exact hnone (hneither.1 rfl)
    | false => rfl

end Writer

end Markup
