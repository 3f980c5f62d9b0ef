import Markup.Proofs.Nesting
import Markup.Proofs.Reader.Reaches
import Markup.Proofs.Session.Interruption
import Markup.Proofs.Session.Passive
import Markup.Proofs.Writer.Carryover

/-!
# Writers that listen to several parses

A writer appends the markup of each parse to what it has written. Whoever listens beside it, what it
appends during a parse is what a fresh writer would write for the same events, unless one of the
marks that earlier parses have left shows in it (`written_of_parses`). Parses that succeed leave no
mark, since their events are those of whole documents.

A parse that ends early may leave one: after a source that fails inside an element with raw text the
text of the next document is written as it is, up to its first tag (`not_escaped_after_failure`).
-/

namespace Markup

instance {α β : Type} [Listener α] [Listener β] : Listener (α ⊕ β) where
  receive
    | .inl x, event =>
      let (x, reaction) := Listener.receive x event
      (.inl x, reaction)
    | .inr y, event =>
      let (y, reaction) := Listener.receive y event
      (.inr y, reaction)

/-! ## Whole documents leave no mark -/

section

variable {d : Dtd} {events : List Event}

/-- The last tag of nested events is an end tag. -/
theorem Nested.getLast?_tagEvents (h : Nested events) (e : Element) (attributes : Attributes) :
    (tagEvents events).getLast? ≠ some (.startTag e attributes) := by
  induction h with
  | nil => nofun
  | text _ ih => exact ih
  | @element x attributes inside rest _ _ _ ih =>
    intro hlast
    have hsplit : tagEvents (.startTag x attributes :: (inside ++ .endTag x :: rest)) =
        (.startTag x attributes :: tagEvents inside) ++ .endTag x :: tagEvents rest :=
      congrArg (_ :: ·) (List.filter_append ..)
    rw [hsplit, List.getLast?_append_of_ne_nil _ (List.cons_ne_nil _ _),
      List.getLast?_cons] at hlast
    cases hrest : (tagEvents rest).getLast? with
    | none =>
      rw [hrest] at hlast
      cases hlast
    | some event =>
      rw [hrest] at hlast
      exact ih (hrest.trans hlast)

/-- The events of a whole document leave no element open. -/
theorem leavesRaw_of_isDocument (h : IsDocument d events) : leavesRaw events = false := by
  obtain ⟨body, rfl, -, hnested⟩ := h
  have htags : tagEvents (body ++ [.finished]) = tagEvents body := by
    simp [tagEvents, Event.isTag]
  unfold leavesRaw
  rw [htags]
  split
  · -- a start tag at the end would be there without the undeclared end tags as well
    rename_i e attributes hlast
    obtain ⟨before, hbefore⟩ := List.getLast?_eq_some_iff.1 hlast
    have hdeclared : tagEvents (declaredEvents d body) =
        declaredEvents d before ++ [.startTag e attributes] := by
      have hcomm : tagEvents (declaredEvents d body) = declaredEvents d (tagEvents body) :=
        List.filter_comm ..
      rw [hcomm, hbefore, declaredEvents_append]
      rfl
    have hne := hnested.getLast?_tagEvents e attributes
    rw [hdeclared, List.getLast?_concat] at hne
    exact (hne rfl).elim
  · rfl

/-- The events of a whole document do not end with text. -/
theorem leavesLineEnd_of_isDocument (h : IsDocument d events) : leavesLineEnd events = false := by
  obtain ⟨body, rfl, -, -⟩ := h
  rw [leavesLineEnd, List.getLast?_concat]

/-- Neither mark of a writer is set. -/
structure Writer.Unmarked (w : Writer) : Prop where
  /-- Text is escaped. -/
  raw : w.raw = false
  /-- No line end is pending. -/
  lineEndPending : w.lineEndPending = false

/-- After a whole document a writer is as unmarked as before. -/
theorem Writer.Unmarked.foldl_of_isDocument {w : Writer} (hw : w.Unmarked)
    (h : IsDocument d events) : Unmarked (events.foldl Writer.write w) := by
  constructor
  · rw [Writer.raw_foldl hw.raw, leavesRaw_of_isDocument h]
  · rw [Writer.lineEndPending_foldl hw.lineEndPending, leavesLineEnd_of_isDocument h]

end

/-! ## A writer among listeners -/

variable {α : Type} [Listener α]

section

variable {R : α → α → Prop}

omit [Listener α] in
/-- The listener at a place among others that are related to those before. -/
theorem exists_of_forall₂ {xs ys : List α} (h : List.Forall₂ R xs ys) {k : Nat} {x : α}
    (hx : xs[k]? = some x) : ∃ y, ys[k]? = some y ∧ R x y := by
  induction h generalizing k with
  | nil => cases hx
  | @cons x y xs ys hxy _ ih =>
    cases k with
    | zero =>
      cases hx
      exact ⟨y, rfl, hxy⟩
    | succ k => exact ih hx

/-- What an event does to one listener it does to all, or nothing. -/
theorem forall₂_deliver (hrefl : ∀ x, R x x)
    (hreceive : ∀ x event, R x (Listener.receive x event).1) (event : Event) (xs : List α) :
    List.Forall₂ R xs (deliver event xs).1 := by
  induction xs with
  | nil => exact .nil
  | cons x xs ih =>
    unfold deliver
    dsimp only
    split
    · exact .cons (hreceive x event) (List.forall₂_same.2 fun y _ => hrefl y)
    · exact .cons (hreceive x event) ih

/-- Listeners change by receiving events and in no other way. -/
theorem Session.forall₂_performAll (hrefl : ∀ x, R x x) (htrans : ∀ x y z, R x y → R y z → R x z)
    (hreceive : ∀ x event, R x (Listener.receive x event).1) (s : Session α)
    (actions : List Action) :
    List.Forall₂ R s.listeners (s.performAll actions).1.listeners := by
  have hsame (xs : List α) : List.Forall₂ R xs xs := List.forall₂_same.2 fun x _ => hrefl x
  have hperform (s : Session α) (action : Action) :
      List.Forall₂ R s.listeners (s.perform action).1.listeners := by
    cases action with
    | deliver event => exact forall₂_deliver hrefl hreceive event s.listeners
    | checkpoint => exact hsame _
    | report issue => exact hsame _
    | note remark => exact hsame _
  induction actions generalizing s with
  | nil => exact hsame _
  | cons action actions ih =>
    have hfirst := hperform s action
    unfold performAll
    split
    · rename_i t ht
      rw [ht] at hfirst
      exact forall₂_trans htrans hfirst (ih t)
    · rename_i t error ht
      rw [ht] at hfirst
      exact hfirst

end

/-- What a listener receives at two times. -/
theorem receiveAll_append (x : α) (events more : List Event) :
    receiveAll x (events ++ more) = receiveAll (receiveAll x events) more :=
  List.foldl_append ..

/-- A listener is what it makes of the events that it hears. -/
theorem Session.receives_performAll (s : Session (Recorder α)) (actions : List Action) :
    List.Forall₂ (fun before after => ∀ heard, after.events = before.events ++ heard →
      after.listener = receiveAll before.listener heard)
      s.listeners (s.performAll actions).1.listeners := by
  have hreceives : List.Forall₂ (fun before after : Recorder α => ∃ heard,
      after.events = before.events ++ heard ∧
        after.listener = receiveAll before.listener heard)
      s.listeners (s.performAll actions).1.listeners := by
    refine forall₂_performAll (fun x => ⟨[], (List.append_nil _).symm, rfl⟩)
      (fun x y z hxy hyz => ?_) (fun x event => ⟨[event], List.reverse_cons, rfl⟩) s actions
    obtain ⟨first, hfirst, hy⟩ := hxy
    obtain ⟨second, hsecond, hz⟩ := hyz
    exact ⟨first ++ second, by rw [hsecond, hfirst, List.append_assoc],
      by rw [hz, hy, receiveAll_append]⟩
  refine hreceives.imp fun before after h heard hheard => ?_
  obtain ⟨events, hevents, hlistener⟩ := h
  rw [hlistener, List.append_cancel_left (hevents.symm.trans hheard)]

/-- A writer among other listeners is what it makes of its events. -/
theorem receiveAll_inl {β : Type} [Listener β] (w : Writer) (events : List Event) :
    receiveAll (.inl w : Writer ⊕ β) events = .inl (events.foldl Writer.write w) := by
  induction events generalizing w with
  | nil => rfl
  | cons event events ih => exact ih (w.write event)

namespace Session

/-- The listener of number `k` is this writer, which has heard these events. -/
def HasWriter (s : Session (Recorder (Writer ⊕ α))) (k : Nat) (w : Writer) (past : List Event) :
    Prop :=
  ∃ r, s.listeners[k]? = some r ∧ r.listener = .inl w ∧ r.events = past

/-- Parses documents one after another: the session after the last and how each parse ended. -/
def parseAll (s : Session α) : List Source → Session α × List (Except ParseError Unit)
  | [] => (s, [])
  | source :: sources =>
    let (s, result) := s.parse source
    let (s, results) := s.parseAll sources
    (s, result :: results)

variable {s : Session (Recorder (Writer ⊕ α))} {k : Nat} {w : Writer} {past : List Event}

/-- A writer writes what it hears of a parse, which is a whole document if the parse succeeds. -/
theorem HasWriter.parse (h : s.HasWriter k w past) (source : Source) :
    ∃ heard, (s.parse source).1.HasWriter k (heard.foldl Writer.write w) (past ++ heard) ∧
      ((s.parse source).2 = .ok () → IsDocument s.grammar.dtd heard) := by
  obtain ⟨r, hr, hwriter, hpast⟩ := h
  obtain ⟨hpart, hwhole⟩ := Session.hears_performTrace { s with log := s.log.clear }
    (Reader.read s.grammar source)
  have hreceives := Session.receives_performAll { s with log := s.log.clear }
    (Reader.read s.grammar source).actions
  rw [← performTrace_fst] at hreceives
  obtain ⟨r', hr', heard, hheard, -⟩ := exists_of_forall₂ hpart hr
  have hafter {R : Recorder (Writer ⊕ α) → Recorder (Writer ⊕ α) → Prop}
      (hR : List.Forall₂ R s.listeners (s.parse source).1.listeners) : R r r' := by
    obtain ⟨x, hx, hRx⟩ := exists_of_forall₂ hR hr
    cases hr'.symm.trans hx
    exact hRx
  refine ⟨heard, ⟨r', hr', ?_, ?_⟩, fun hok => ?_⟩
  · rw [hafter hreceives heard hheard, hwriter, receiveAll_inl]
  · rw [hheard, hpast]
  · -- without an error all events of the document have been heard
    obtain ⟨hfinished, hall⟩ := hwhole hok
    obtain ⟨events, hevents, hread⟩ := hafter hall
    rw [List.append_cancel_left (hheard.symm.trans hevents), hread]
    exact isDocument_read hfinished

/-- A writer writes what it hears of parses one after another. Parses that succeed leave no mark. -/
theorem HasWriter.parseAll (h : s.HasWriter k w past) (sources : List Source) :
    ∃ heard, (s.parseAll sources).1.HasWriter k (heard.foldl Writer.write w) (past ++ heard) ∧
      ((∀ result ∈ (s.parseAll sources).2, result = .ok ()) → w.Unmarked →
        Writer.Unmarked (heard.foldl Writer.write w)) := by
  induction sources generalizing s w past with
  | nil => exact ⟨[], by rwa [List.append_nil], fun _ hw => hw⟩
  | cons source sources ih =>
    obtain ⟨first, hfirst, hdocument⟩ := h.parse source
    obtain ⟨others, hothers, hunmarked⟩ := ih hfirst
    refine ⟨first ++ others, ?_, fun hok hw => ?_⟩
    · rw [List.foldl_append, ← List.append_assoc]
      exact hothers
    · obtain ⟨hresult, hresults⟩ := List.forall_mem_cons.1 hok
      rw [List.foldl_append]
      exact hunmarked hresults (hw.foldl_of_isDocument (hdocument hresult))

/-- What a writer appends during a parse is the markup of the events of the parse, unless a mark of
an earlier parse shows. Parses that succeed leave no mark. -/
theorem written_of_parses (s : Session (Recorder (Writer ⊕ α))) (k : Nat)
    (h : s.HasWriter k .empty []) (earlier : List Source) (source : Source) :
    ∃ w w' past heard written,
      (s.parseAll earlier).1.HasWriter k w past ∧
      ((s.parseAll earlier).1.parse source).1.HasWriter k w' (past ++ heard) ∧
      w'.output = w.output ++ written ∧
      (written = Writer.markup heard ↔
        ¬(leavesRaw past = true ∧ opensEscaped heard = true ∨
          leavesLineEnd past = true ∧ opensWithEnd heard = true)) ∧
      ((∀ result ∈ (s.parseAll earlier).2, result = .ok ()) → written = Writer.markup heard) := by
  obtain ⟨past, hpast, hunmarked⟩ := h.parseAll earlier
  obtain ⟨heard, hheard, -⟩ := hpast.parse source
  have hiff := Writer.appended_eq_markup_iff (past.foldl Writer.write .empty) heard
  refine ⟨_, _, past, heard, _, hpast, hheard, Writer.output_foldl _ heard, ?_, fun hok => ?_⟩
  · rwa [Writer.raw_foldl rfl, Writer.lineEndPending_foldl rfl] at hiff
  · obtain ⟨hraw, hline⟩ := hunmarked hok ⟨rfl, rfl⟩
    rw [hiff, hraw, hline]
    simp

/-- Listings hold raw text. -/
def listings : Session (Recorder (Writer ⊕ Collector)) :=
  .start ⟨(Dtd.ofRoot "D").addElement (.ofName "LISTING" .cdata), .strict⟩ [⟨.inl .empty, []⟩] false

/-- A source that fails inside a listing. -/
def brokenListing : Source :=
  (Source.ofText "<LISTING>").failingAt 9 (.interrupted .other "source failed")

/-- A writer that has seen a listing and one that breaks off goes on with a text. -/
theorem written_of_parses_listings :
    listings.HasWriter 0 .empty [] ∧ ∃ w w' past heard written,
      (listings.parseAll [.ofText "<LISTING>a>b\n</LISTING>", brokenListing]).1.HasWriter 0 w past ∧
      ((listings.parseAll [.ofText "<LISTING>a>b\n</LISTING>", brokenListing]).1.parse
        (.ofText "a>b")).1.HasWriter 0 w' (past ++ heard) ∧
      w'.output = w.output ++ written ∧
      (written = Writer.markup heard ↔
        ¬(leavesRaw past = true ∧ opensEscaped heard = true ∨
          leavesLineEnd past = true ∧ opensWithEnd heard = true)) :=
  have hempty : listings.HasWriter 0 .empty [] := ⟨_, rfl, rfl, rfl⟩
  have ⟨w, w', past, heard, written, hpast, hheard, houtput, hiff, _⟩ :=
    written_of_parses listings 0 hempty
      [.ofText "<LISTING>a>b\n</LISTING>", brokenListing] (.ofText "a>b")
  ⟨hempty, w, w', past, heard, written, hpast, hheard, houtput, hiff⟩

/-- What a writer appends during a parse after a failed one is not what a fresh writer writes. -/
theorem not_escaped_after_failure :
    ∃ w w' past heard written,
      (listings.parseAll [brokenListing]).1.HasWriter 0 w past ∧
      ((listings.parseAll [brokenListing]).1.parse (.ofText ">")).1.HasWriter 0 w' (past ++ heard) ∧
      w'.output = w.output ++ written ∧ written = ">" ∧ Writer.markup heard = "&#62;" := by
  have hbroken : Reader.read listings.grammar brokenListing =
      ⟨[.checkpoint, .checkpoint, .deliver (.startTag (.ofName "LISTING" .cdata) .empty)],
        .failed (.interrupted .other "source failed")⟩ := by
    apply Reader.run_of_runWithin (n := 20)
    decide +kernel
  have hnext : Reader.read listings.grammar (.ofText ">") =
      ⟨[.checkpoint, .deliver (.characterData ">" false), .deliver .finished], .finished⟩ := by
    apply Reader.run_of_runWithin (n := 20)
    decide +kernel
  have hfirst : (listings.parseAll [brokenListing]).1 =
      ({ listings with log := listings.log.clear }.performTrace
        (Reader.read listings.grammar brokenListing)).1 := rfl
  have hsecond (t : Session (Recorder (Writer ⊕ Collector))) (ht : t.grammar = listings.grammar) :
      (t.parse (.ofText ">")).1 = ({ t with log := t.log.clear }.performTrace
        (Reader.read listings.grammar (.ofText ">"))).1 := by
    rw [← ht]
    rfl
  rw [hsecond _ (by rw [hfirst, hbroken]; rfl), hfirst, hbroken, hnext]
  exact ⟨_, _, [.startTag (.ofName "LISTING" .cdata) .empty],
    [.characterData ">" false, .finished], ">", ⟨_, rfl, rfl, rfl⟩, ⟨_, rfl, rfl, rfl⟩,
    by decide +kernel, rfl, by decide +kernel⟩

end Session

end Markup
