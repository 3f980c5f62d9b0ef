import Mathlib.Data.Nat.Digits.Defs
import Markup.Proofs.Reader.Traversal
import Markup.Reader.Reference

/-!
# Reading a numeric reference

A numeric reference denotes the character whose number its digits write, where there is one
(`Numeral.character?_eq_some_iff`). The digits are collected one by one, however many there are, and
the number is taken when they end: at a semicolon, which is taken with them
(`Numeral.traverses_terminated`), or before anything else that is none of them
(`Numeral.traverses_open`).
-/

namespace Markup

namespace Reference

/-- The digits in the order of their values. -/
def digitsInOrder : List Char :=
  ['0', '1', '2', '3', '4', '5', '6', '7', '8', '9', 'a', 'b', 'c', 'd', 'e', 'f']

/-- The place of a digit among the digits, in either case. -/
def digitPlace (c : Char) : Nat :=
  digitsInOrder.idxOf c.toLower

/-- The digits are ASCII characters. -/
theorem toNat_lt_of_isDigitOf {hexadecimal : Bool} {c : Char}
    (h : isDigitOf hexadecimal c = true) : c.toNat < 128 := by
  have hle : ∀ {x : Char}, c ≤ x → c.toNat ≤ x.toNat := id
  cases hexadecimal with
  | false => exact Nat.lt_of_le_of_lt (Char.isDigit_iff_toNat.1 h).2 (by decide)
  | true =>
    rw [isDigitOf, if_pos rfl, isHexDigit, Bool.or_eq_true, Bool.or_eq_true, Bool.and_eq_true,
      Bool.and_eq_true, decide_eq_true_eq, decide_eq_true_eq, decide_eq_true_eq,
      decide_eq_true_eq] at h
    rcases h with (h | h) | h
    · exact Nat.lt_of_le_of_lt (Char.isDigit_iff_toNat.1 h).2 (by decide)
    · exact Nat.lt_of_le_of_lt (hle h.2) (by decide)
    · exact Nat.lt_of_le_of_lt (hle h.2) (by decide)

/-- The value of a digit is its place among the digits. -/
theorem digitValue_eq_digitPlace {hexadecimal : Bool} {c : Char}
    (h : isDigitOf hexadecimal c = true) : digitValue c = digitPlace c := by
  have hall : ∀ n < 128, isDigitOf hexadecimal (Char.ofNat n) = true →
      digitValue (Char.ofNat n) = digitPlace (Char.ofNat n) := by
    cases hexadecimal <;> decide +kernel
  rw [← Char.ofNat_toNat c] at h ⊢
  exact hall _ (Char.ofNat_toNat c ▸ toNat_lt_of_isDigitOf h) h

/-- The number that digits denote is the one that they write in their base, first digit first. -/
theorem number_eq_ofDigits {hexadecimal : Bool} {digits : List Char}
    (h : ∀ c ∈ digits, isDigitOf hexadecimal c = true) :
    number hexadecimal digits =
      Nat.ofDigits (if hexadecimal then 16 else 10) (digits.reverse.map digitPlace) := by
  have hplaces : digits.reverse.map digitPlace = digits.reverse.map digitValue :=
    List.map_congr_left fun c hc => (digitValue_eq_digitPlace (h c (List.mem_reverse.1 hc))).symm
  rw [hplaces, Nat.ofDigits_eq_foldr, List.map_reverse, List.foldr_reverse, List.foldl_map]
  unfold number
  congr 1
  funext n c
  rw [Nat.mul_comm, Nat.add_comm]
  rfl

/-- A number denotes the character that has it as its number, if there is one. -/
theorem scalar?_eq_some_iff {n : Nat} {c : Char} : scalar? n = some c ↔ c.toNat = n := by
  constructor
  · intro h
    rw [scalar?] at h
    split at h
    · rename_i hvalid
      rw [← Option.some.inj h, Char.ofNat, dif_pos hvalid]
      rfl
    · cases h
  · rintro rfl
    exact scalar?_toNat c

end Reference

/-- A numeric reference as it is written, up to the semicolon. -/
structure Numeral where
  /-- The letter that marks hexadecimal digits, if they are marked. -/
  mark : Option Char
  /-- The digits. -/
  digits : List Char
  /-- The mark is an `x` in either case. -/
  marked : ∀ c, mark = some c → c = 'x' ∨ c = 'X'
  /-- The digits are decimal unless they are marked. -/
  isDigit : ∀ c ∈ digits, Reference.isDigitOf mark.isSome c = true

namespace Numeral

variable (n : Numeral)

/-- Whether the digits are hexadecimal. -/
def hexadecimal : Bool :=
  n.mark.isSome

/-- The number that the digits write. -/
def value : Nat :=
  Nat.ofDigits (if n.hexadecimal then 16 else 10) (n.digits.reverse.map Reference.digitPlace)

/-- The characters of the reference. -/
def text : List Char :=
  '&' :: '#' :: (n.mark.toList ++ n.digits)

/-- The character that the reference denotes. -/
def character? : Option Char :=
  Reference.character? n.hexadecimal n.digits

/-- What the reference adds to a text. -/
def expansion : String :=
  String.ofList n.character?.toList

/-- The reference ends before a character: it is neither a digit nor a semicolon, and no mark
where there are no digits. -/
def EndsBefore (c : Char) : Prop :=
  Reference.isDigitOf n.hexadecimal c = false ∧ c ≠ ';' ∧
    (n.mark = none → n.digits = [] → c ≠ 'x' ∧ c ≠ 'X')

/-- A reference denotes a character just when it has digits and they write the number of the
character. -/
theorem character?_eq_some_iff {n : Numeral} {c : Char} :
    n.character? = some c ↔ n.digits ≠ [] ∧ c.toNat = n.value := by
  rw [character?, Reference.character?_eq, value]
  cases hdigits : n.digits with
  | nil => simp
  | cons x digits =>
    have hnumber := Reference.number_eq_ofDigits n.isDigit
    rw [hdigits] at hnumber
    rw [if_neg (by simp), Reference.scalar?_eq_some_iff, hexadecimal, hnumber]
    simp

end Numeral

namespace Reader

variable {f : Feed} {g : Grammar} {d : Document} {cs : List Char} {site : Site}

/-! ## Sites of references -/

/-- Whether references are recognised at a site. -/
def Site.HonoursReferences : Site → Prop
  | .text place => place.honoursReferences = true
  | .value v => v.mark ≠ some '&'

/-- The mode at a site that has received a text. -/
def Site.modeAfter (text : String) : Site → Mode
  | .text place => .text place
  | .value v => .value { v with text := v.text ++ text }

/-- The document at a site that has received a text. -/
def Site.documentAfter (d : Document) (text : String) : Site → Document
  | .text _ => d.append text
  | .value _ => d

@[simp] theorem Site.modeAfter_empty (site : Site) : site.modeAfter "" = site.mode := by
  cases site <;> simp [Site.modeAfter, Site.mode]

@[simp] theorem Site.documentAfter_empty (site : Site) : site.documentAfter d "" = d := by
  cases site <;> simp [Site.documentAfter]

/-- At a site of references an ampersand begins one. -/
theorem traverses_ampersand (site : Site) (hsite : site.HonoursReferences) :
    Traverses f g ⟨site.mode, d, '&' :: cs⟩ [] [] ⟨.reference site, d, cs⟩ := by
  cases site with
  | text place =>
    refine .take_quiet (steady_of_unheld rfl) fun input => ?_
    show stepText _ place (some '&') = _
    simp only [stepText]
    rw [if_pos ⟨trivial, hsite⟩]
    rfl
  | value v =>
    refine .take_quiet (steady_of_unheld rfl) fun input => ?_
    show stepValue g _ v (some '&') = _
    unfold stepValue
    cases hmark : v.mark with
    | none => rfl
    | some mark =>
      have hne : '&' ≠ mark := fun heq => hsite (heq ▸ hmark)
      simp only [stepQuotedValue]
      rw [if_neg hne]
      rfl

/-- At a site of references the name of an entity is collected. -/
theorem traverses_entityName (site : Site) (hsite : site.HonoursReferences)
    (hsteady : (Mode.reference site).isHeld = true → f.steady = true) {name : String}
    (htoken : isToken name = true) :
    Traverses f g ⟨site.mode, d, '&' :: (name.toList ++ cs)⟩ [] []
      ⟨.entityName site name, d, cs⟩ := by
  have hheld (name : String) (h : (Mode.entityName site name).isHeld = true) :
      f.steady = true := by
    cases site with
    | text place => exact hsteady rfl
    | value v => cases h
  refine (traverses_ampersand site hsite).after (.token (.entityName site) hsteady hheld
    (fun c input hc => ⟨[], ?_, rfl, rfl⟩) (fun name c input hc => ?_) htoken cs)
  · show stepReference _ site (some c) = _
    simp only [stepReference]
    rw [if_neg (ne_of_isNameChar (isNameChar_of_isNameStart hc) (by decide)), if_pos hc]
    rfl
  · show stepEntityName g _ site name (some c) = _
    simp only [stepEntityName]
    rw [if_pos hc]
    rfl

/-! ## Digits -/

/-- The end of a numeric reference adds the character that it denotes, if it denotes one. -/
theorem exists_endNumeric (input : Input) (mode : Mode) (hexadecimal : Bool)
    (digits : List Char) {text : String}
    (htext : String.ofList (Reference.character? hexadecimal digits).toList = text) :
    ∃ actions,
      endNumeric ⟨input, mode, d⟩ site hexadecimal digits =
          (actions, .running ⟨input, site.modeAfter text, site.documentAfter d text⟩) ∧
        actionEvents actions = [] ∧ actionCauses actions = [] := by
  subst htext
  unfold endNumeric
  cases Reference.character? hexadecimal digits with
  | none =>
    rw [Option.toList_none, String.ofList_nil, site.modeAfter_empty, site.documentAfter_empty]
    exact ⟨_, rfl, rfl, rfl⟩
  | some c => cases site <;> exact ⟨_, rfl, rfl, rfl⟩

/-- The digits of a reference are collected. -/
theorem traverses_digits (hsteady : f.steady = true) {hexadecimal : Bool} {digits : List Char}
    (hdigits : ∀ c ∈ digits, Reference.isDigitOf hexadecimal c = true) (seen : List Char) :
    Traverses f g ⟨.digits site hexadecimal seen, d, digits ++ cs⟩ [] []
      ⟨.digits site hexadecimal (seen ++ digits), d, cs⟩ := by
  refine Traverses.collect (fun seen cs => ⟨.digits site hexadecimal seen, d, cs⟩) _
    (fun seen c cs hc => ?_) hdigits seen cs
  refine .take_quiet (fun _ => hsteady) fun input => ?_
  show stepDigits _ site hexadecimal seen (some c) = _
  simp only [stepDigits]
  rw [if_pos hc]
  rfl

end Reader

namespace Numeral

open Reader

variable {f : Feed} {g : Grammar} {d : Document} {cs : List Char} {site : Site} {n : Numeral}

/-- A reference is collected up to the end of its digits. Without a mark and digits, the next
character must not be a mark. -/
theorem traverses_collected (hsteady : f.steady = true) (hend : cs = [] → f.Ends)
    (hmark : n.mark = none → n.digits = [] → cs.head? ≠ some 'x' ∧ cs.head? ≠ some 'X') :
    Traverses f g ⟨.reference site, d, '#' :: (n.mark.toList ++ n.digits) ++ cs⟩ [] []
      ⟨.digits site n.hexadecimal n.digits, d, cs⟩ := by
  have hhash : Traverses f g ⟨.reference site, d, '#' :: (n.mark.toList ++ n.digits) ++ cs⟩ [] []
      ⟨.numericReference site, d, n.mark.toList ++ n.digits ++ cs⟩ :=
    .take_quiet (fun _ => hsteady) fun _ => rfl
  have hstart : Traverses f g ⟨.numericReference site, d, n.mark.toList ++ n.digits ++ cs⟩ [] []
      ⟨.digits site n.hexadecimal [], d, n.digits ++ cs⟩ := by
    unfold hexadecimal
    cases hn : n.mark with
    | some x =>
      refine .take_quiet (fun _ => hsteady) fun input => ?_
      show stepNumericReference _ site (some x) = _
      unfold stepNumericReference
      rw [if_pos ((n.marked x hn).imp (congrArg some) (congrArg some))]
      rfl
    | none =>
      have hnext : (n.digits ++ cs).head? ≠ some 'x' ∧ (n.digits ++ cs).head? ≠ some 'X' := by
        cases hdigits : n.digits with
        | nil => exact hmark hn hdigits
        | cons x digits =>
          -- a decimal digit is no mark
          have hx := n.isDigit x (hdigits ▸ List.mem_cons_self)
          rw [hn] at hx
          constructor
          · rintro ⟨⟩
            cases hx
          · rintro ⟨⟩
            cases hx
      refine .leave_quiet (fun _ => hsteady) (fun hnil => hend (List.append_eq_nil_iff.1 hnil).2)
        fun input => ?_
      show stepNumericReference _ site (n.digits ++ cs).head? = _
      unfold stepNumericReference
      rw [if_neg (not_or.2 hnext)]
      rfl
  exact (hhash.after hstart).after (traverses_digits hsteady n.isDigit [])

/-- A reference with its semicolon adds the character that it denotes. -/
theorem traverses_terminated (hsteady : f.steady = true) :
    Traverses f g ⟨.reference site, d, '#' :: (n.mark.toList ++ n.digits) ++ ';' :: cs⟩ [] []
      ⟨site.modeAfter n.expansion, site.documentAfter d n.expansion, cs⟩ := by
  have hend : Traverses f g ⟨.digits site n.hexadecimal n.digits, d, ';' :: cs⟩ [] []
      ⟨site.modeAfter n.expansion, site.documentAfter d n.expansion, cs⟩ := by
    refine .take (fun _ => hsteady) fun input => ?_
    have hnot : Reference.isDigitOf n.hexadecimal ';' = false := by
      cases n.hexadecimal <;> decide
    show ∃ actions, stepDigits _ site n.hexadecimal n.digits (some ';') = _ ∧ _
    simp only [stepDigits, hnot]
    exact exists_endNumeric input.consume _ n.hexadecimal n.digits rfl
  exact (traverses_collected hsteady (fun hnil => absurd hnil (List.cons_ne_nil ';' cs))
    fun _ _ => ⟨by simp, by simp⟩).after hend

/-- A reference without a semicolon adds the character that it denotes, before whatever it ends
at. -/
theorem traverses_open (hsteady : f.steady = true) (hend : cs = [] → f.Ends)
    (hcs : ∀ c, cs.head? = some c → n.EndsBefore c) :
    Traverses f g ⟨.reference site, d, '#' :: (n.mark.toList ++ n.digits) ++ cs⟩ [] []
      ⟨site.modeAfter n.expansion, site.documentAfter d n.expansion, cs⟩ := by
  have hmark (hnone : n.mark = none) (hnil : n.digits = []) :
      cs.head? ≠ some 'x' ∧ cs.head? ≠ some 'X' :=
    ⟨fun h => ((hcs _ h).2.2 hnone hnil).1 rfl, fun h => ((hcs _ h).2.2 hnone hnil).2 rfl⟩
  refine (traverses_collected hsteady hend hmark).after (.leave (fun _ => hsteady) hend ?_)
  intro input
  show ∃ actions, stepDigits _ site n.hexadecimal n.digits cs.head? = _ ∧ _
  cases hnext : cs.head? with
  | none => exact exists_endNumeric input _ n.hexadecimal n.digits rfl
  | some c =>
    obtain ⟨hdigit, hsemicolon, -⟩ := hcs c hnext
    simp only [stepDigits, hdigit, Bool.false_eq_true, if_false]
    rw [if_neg hsemicolon]
    exact exists_endNumeric input _ n.hexadecimal n.digits rfl

/-- A reference at a site adds the character that it denotes, and is taken up to its semicolon, if
it has one. -/
theorem traverses (hsteady : f.steady = true) (site : Site) (hsite : site.HonoursReferences)
    (semicolon : Bool)
    (hend : semicolon = false → cs = [] → f.Ends)
    (hcs : semicolon = false → ∀ c, cs.head? = some c → n.EndsBefore c) :
    Traverses f g ⟨site.mode, d, n.text ++ (if semicolon then [';'] else []) ++ cs⟩ [] []
      ⟨site.modeAfter n.expansion, site.documentAfter d n.expansion, cs⟩ := by
  have hampersand : Traverses f g
      ⟨site.mode, d, n.text ++ (if semicolon then [';'] else []) ++ cs⟩ [] []
      ⟨.reference site, d,
        '#' :: (n.mark.toList ++ n.digits) ++ (if semicolon then [';'] else []) ++ cs⟩ :=
    traverses_ampersand site hsite
  refine hampersand.after ?_
  cases semicolon with
  | true =>
    rw [if_pos rfl, List.append_assoc]
    exact traverses_terminated hsteady
  | false =>
    rw [if_neg Bool.false_ne_true, List.append_nil]
    exact traverses_open hsteady (hend rfl) (hcs rfl)

end Numeral

end Markup
