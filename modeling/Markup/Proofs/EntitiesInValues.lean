import Markup.Proofs.Reader.Attributes
import Markup.Proofs.Reader.EntityReferences
import Markup.Proofs.Session.Passive

/-!
# Entities in text and in values

In text the replacement text of an entity is read like text, and in the value of an attribute it is
taken over with its decimal references replaced (`Reference.replaceDecimal`). Where the replacement
text consists of plain characters and of numeric references, both give the same characters, but for
hexadecimal references: in a value they stay as they are written (`entity_in_text_and_value`).
Nothing in the replacement text ends the value or its tag, because none of it is read again there.
-/

namespace Markup

open Reader

/-- A piece of a replacement text that text reads as one character. -/
inductive Piece where
  /-- A character that begins neither a reference nor markup and is no carriage return. -/
  | plain (c : Char) (ordinary : c ≠ '&' ∧ c ≠ '<' ∧ c ≠ '\r')
  /-- A numeric reference with its semicolon and the character that it denotes. -/
  | numeral (n : Numeral) (c : Char) (denotes : n.character? = some c)

namespace Piece

/-- The piece as it is written. -/
def text : Piece → List Char
  | plain c _ => [c]
  | numeral n _ _ => n.text ++ [';']

/-- The character that the piece stands for in text. -/
def character : Piece → Char
  | plain c _ => c
  | numeral _ c _ => c

/-- Whether the piece is a hexadecimal reference. -/
def isHexadecimal : Piece → Bool
  | plain _ _ => false
  | numeral n _ _ => n.hexadecimal

/-- What the piece stands for in a value. -/
def inValue (p : Piece) : List Char :=
  if p.isHexadecimal then p.text else [p.character]

/-- Without hexadecimal references pieces stand for the same in values and in text. -/
theorem flatMap_inValue {pieces : List Piece} (h : ∀ p ∈ pieces, p.isHexadecimal = false) :
    pieces.flatMap inValue = pieces.map character := by
  induction pieces with
  | nil => rfl
  | cons p pieces ih =>
    have hp : p.inValue = [p.character] := by
      rw [inValue, h p List.mem_cons_self]
      rfl
    rw [List.flatMap_cons, hp, ih fun q hq => h q (List.mem_cons_of_mem p hq)]
    rfl

end Piece

/-! ## Replacement texts in values -/

namespace Reference

/-- A character that begins no reference stays as it is. -/
theorem replaceDecimal_cons {c : Char} (h : c ≠ '&') (cs : List Char) :
    replaceDecimal (c :: cs) = c :: replaceDecimal cs := by
  rw [replaceDecimal]
  rintro rest rfl
  exact absurd rfl h

/-- Characters that begin no references stay as they are. -/
theorem replaceDecimal_append {cs : List Char} (h : '&' ∉ cs) (rest : List Char) :
    replaceDecimal (cs ++ rest) = cs ++ replaceDecimal rest := by
  induction cs with
  | nil => rfl
  | cons c cs ih =>
    rw [List.mem_cons, not_or] at h
    rw [List.cons_append, replaceDecimal_cons (Ne.symm h.1), ih h.2]
    rfl

/-- A decimal reference with its semicolon is replaced by the character that it denotes. -/
theorem replaceDecimal_numeral {n : Numeral} {c : Char} (hn : n.hexadecimal = false)
    (hc : n.character? = some c) (rest : List Char) :
    replaceDecimal (n.text ++ ';' :: rest) = c :: replaceDecimal rest := by
  have hmark : n.mark = none := Option.not_isSome_iff_eq_none.1 (Bool.eq_false_iff.1 hn)
  have hdigits : ∀ x ∈ n.digits, x.isDigit = true := fun x hx => by
    have hdigit := n.isDigit x hx
    rwa [hmark] at hdigit
  have htake : (n.digits ++ ';' :: rest).takeWhile Char.isDigit = n.digits := by
    rw [List.takeWhile_append_of_pos hdigits, List.takeWhile_cons_of_neg (by decide),
      List.append_nil]
  have hdrop : (n.digits ++ ';' :: rest).dropWhile Char.isDigit = ';' :: rest := by
    rw [List.dropWhile_append_of_pos hdigits, List.dropWhile_cons_of_neg (by decide)]
  have hdenotes : character? false n.digits = some c := by
    rw [← hn]
    exact hc
  have htext : n.text ++ ';' :: rest = '&' :: '#' :: (n.digits ++ ';' :: rest) := by
    rw [Numeral.text, hmark]
    rfl
  rw [htext, replaceDecimal, htake, hdrop, hdenotes]
  rfl

/-- A hexadecimal reference stays as it is. -/
theorem replaceDecimal_hexadecimal {n : Numeral} (hn : n.hexadecimal = true) (rest : List Char) :
    replaceDecimal (n.text ++ rest) = n.text ++ replaceDecimal rest := by
  obtain ⟨x, hmark⟩ := Option.isSome_iff_exists.1 hn
  have hx : x.isDigit = false ∧ x ≠ '&' := by
    rcases n.marked x hmark with rfl | rfl
    · decide
    · decide
  have hdigits : '&' ∉ n.digits := fun hmem => by
    have hdigit := n.isDigit '&' hmem
    rw [hmark, Option.isSome_some] at hdigit
    exact absurd hdigit (by decide)
  have htext : n.text = '&' :: '#' :: (x :: n.digits) := by
    rw [Numeral.text, hmark]
    rfl
  -- no decimal digits follow the `&#`, so it denotes nothing
  have hnone : character? false ((x :: n.digits ++ rest).takeWhile Char.isDigit) = none := by
    rw [List.cons_append, List.takeWhile_cons_of_neg (by rw [hx.1]; exact Bool.false_ne_true)]
    rfl
  have hrest : replaceDecimal (x :: n.digits ++ rest) = x :: n.digits ++ replaceDecimal rest :=
    replaceDecimal_append (fun hmem => (List.mem_cons.1 hmem).elim (fun h => hx.2 h.symm) hdigits)
      rest
  have hopen : replaceDecimal ('&' :: '#' :: (x :: n.digits ++ rest)) =
      '&' :: '#' :: replaceDecimal (x :: n.digits ++ rest) := by
    rw [replaceDecimal, hnone]
  rw [htext]
  exact hopen.trans (by rw [hrest]; rfl)

/-- A replacement text is taken over piece by piece. -/
theorem replaceDecimal_pieces (pieces : List Piece) :
    replaceDecimal (pieces.flatMap Piece.text) = pieces.flatMap Piece.inValue := by
  induction pieces with
  | nil => rw [List.flatMap_nil, List.flatMap_nil, replaceDecimal]
  | cons piece pieces ih =>
    rw [List.flatMap_cons, List.flatMap_cons, ← ih]
    cases piece with
    | plain c hc => exact replaceDecimal_cons hc.1 _
    | numeral n c hc =>
      unfold Piece.inValue
      cases hn : n.hexadecimal with
      | false =>
        rw [if_neg (by simp [Piece.isHexadecimal, hn])]
        simp only [Piece.text, List.append_assoc]
        exact replaceDecimal_numeral hn hc _
      | true =>
        rw [if_pos (by simp [Piece.isHexadecimal, hn])]
        simp only [Piece.text, List.append_assoc]
        rw [replaceDecimal_hexadecimal hn]
        exact congrArg (n.text ++ ·) (replaceDecimal_cons (by decide) _)

end Reference

/-! ## Replacement texts in text -/

namespace Reader

variable {f : Feed} {g : Grammar} {d : Document} {cs : List Char} {place : Place}

/-- In text each piece of a replacement text adds its character. -/
theorem traverses_pieces (hsteady : f.steady = true) (hplace : place.honoursReferences = true)
    (pieces : List Piece) :
    Traverses f g ⟨.text place, d, pieces.flatMap Piece.text ++ cs⟩ [] []
      ⟨.text place, d.append (String.ofList (pieces.map Piece.character)), cs⟩ := by
  induction pieces generalizing d with
  | nil =>
    rw [List.map_nil, String.ofList_nil, Document.append_empty]
    exact .refl _
  | cons piece pieces ih =>
    have hfirst : Traverses f g ⟨.text place, d, piece.text ++ (pieces.flatMap Piece.text ++ cs)⟩
        [] [] ⟨.text place, d.append (String.singleton piece.character),
          pieces.flatMap Piece.text ++ cs⟩ := by
      cases piece with
      | plain c hc => exact traverses_text (fun h => absurd h hc.1) hc.2.1 hc.2.2
      | numeral n c hc =>
        have hexpansion : n.expansion = String.singleton c := by
          rw [Numeral.expansion, hc]
          rfl
        have hnumeral : Traverses f g
            ⟨.text place, d, n.text ++ [';'] ++ (pieces.flatMap Piece.text ++ cs)⟩ [] []
            ⟨.text place, d.append n.expansion, pieces.flatMap Piece.text ++ cs⟩ :=
          n.traverses hsteady (.text place) hplace true (fun h => absurd h (by decide))
            fun h => absurd h (by decide)
        rwa [hexpansion] at hnumeral
    have hrest := ih (d := d.append (String.singleton piece.character))
    rw [Document.append_append] at hrest
    rw [List.flatMap_cons, List.append_assoc, List.map_cons, String.ofList_cons]
    exact hfirst.after hrest

/-! ## References to an entity -/

variable {s : State} {tag : Tag} {key : Name} {name : String} {entity : Entity}
  {pieces : List Piece}

/-- In text a reference to an entity adds the characters of its pieces. -/
theorem reaches_pieces (hname : isToken name = true) (hspace : g.dialect.spaceEntity ≠ some name)
    (hentity : g.dtd.entity? name = some entity)
    (htext : entity.replacement.toList = pieces.flatMap Piece.text) {rest : Source}
    (hmode : s.mode = .text place) (hplace : place.honoursReferences = true)
    (hup : s.input.upcoming = .ofText ("&" ++ name ++ ";") ++ rest)
    (hopen : name ∉ s.looked.openNames) (hdepth : s.looked.openNames.length < s.input.maxDepth) :
    ∃ actions t, Reaches g s actions t ∧ t.mode = .text place ∧
      t.document = s.document.append (String.ofList (pieces.map Piece.character)) ∧
      t.input.upcoming = rest ∧ actionEvents actions = [] ∧ actionCauses actions = [] := by
  have hreference : s.input.upcoming = .ok '&' :: (name.toList.map .ok ++ .ok ';' :: rest) := by
    rw [hup]
    simp [Source.ofText]
  have hend : Source.EndsName (.ok ';' :: rest) := rfl
  obtain ⟨j, t, hreach, htmode, htdocument, hpush, -, -, hrest, -⟩ :=
    reaches_expansion hmode hplace hname hend hreference hspace hentity hopen hdepth
  have hinput : t.input.upcoming = (pieces.flatMap Piece.text ++ []).map .ok ++ rest := by
    have hj : j.upcoming = rest := hrest
    rw [Input.upcoming_pushEntity hpush, htext, hj, List.append_nil]
  obtain ⟨actions, u, hreach', hu, hevents, hcauses⟩ :=
    traverses_pieces (f := .before rest) (g := g) rfl hplace pieces t ⟨htmode, rfl, hinput⟩
  refine ⟨_, u, hreach.trans hreach', hu.mode, ?_, hu.input, ?_, ?_⟩
  · rw [← htdocument]
    exact hu.document
  · rw [actionEvents_append, hevents]
    rfl
  · rw [actionCauses_append, hcauses]
    rfl

/-- A quoted value with a reference to an entity has in its place what the pieces stand for in
values. -/
theorem traverses_valueWithEntity (hname : isToken name = true)
    (hspace : g.dialect.spaceEntity ≠ some name) (hentity : g.dtd.entity? name = some entity)
    (htext : entity.replacement.toList = pieces.flatMap Piece.text) {before after value : String}
    (hbefore : ∀ c ∈ before.toList, IsQuotable '"' c)
    (hafter : ∀ c ∈ after.toList, IsQuotable '"' c)
    (hvalue : value = before ++ String.ofList (pieces.flatMap Piece.inValue) ++ after) :
    Traverses f g
      ⟨.valueStart tag key, d, '"' :: (before.toList ++
        '&' :: (name.toList ++ ';' :: (after.toList ++ '"' :: cs)))⟩ []
      (undeclaredAttribute g tag.element ⟨key.text, value⟩)
      ⟨.attributes { tag with attributes := tag.attributes.insert ⟨key.text, value⟩ }, d, cs⟩ := by
  have hmark : Traverses f g
      ⟨.valueStart tag key, d, '"' :: (before.toList ++
        '&' :: (name.toList ++ ';' :: (after.toList ++ '"' :: cs)))⟩ [] []
      ⟨.value ⟨tag, key, some '"', ""⟩, d, before.toList ++
        '&' :: (name.toList ++ ';' :: (after.toList ++ '"' :: cs))⟩ :=
    .take_quiet (steady_of_unheld rfl) fun _ => rfl
  have hfirst : Traverses f g
      ⟨.value ⟨tag, key, some '"', ""⟩, d, before.toList ++
        '&' :: (name.toList ++ ';' :: (after.toList ++ '"' :: cs))⟩ [] []
      ⟨.value ⟨tag, key, some '"', "" ++ before⟩, d,
        '&' :: (name.toList ++ ';' :: (after.toList ++ '"' :: cs))⟩ :=
    traverses_quoted hbefore
  have hreference : Traverses f g
      ⟨.value ⟨tag, key, some '"', before⟩, d,
        '&' :: (name.toList ++ ';' :: (after.toList ++ '"' :: cs))⟩ [] []
      ⟨.value ⟨tag, key, some '"', before ++ entityInValue g name true⟩, d,
        after.toList ++ '"' :: cs⟩ :=
    traverses_entityInValue hname (by simp)
  have hlast : Traverses f g
      ⟨.value ⟨tag, key, some '"', before ++ entityInValue g name true⟩, d,
        after.toList ++ '"' :: cs⟩ [] []
      ⟨.value ⟨tag, key, some '"', before ++ entityInValue g name true ++ after⟩, d,
        '"' :: cs⟩ :=
    traverses_quoted hafter
  have hentityValue : entityInValue g name true =
      String.ofList (pieces.flatMap Piece.inValue) := by
    unfold entityInValue
    rw [if_neg hspace, hentity, ← Reference.replaceDecimal_pieces, ← htext]
  rw [String.empty_append] at hfirst
  rw [hentityValue, ← hvalue] at hlast
  rw [hentityValue] at hreference
  exact (((hmark.after hfirst).after hreference).after hlast).after traverses_endQuoted

end Reader

/-- An entity whose replacement text consists of plain characters and numeric references stands for
the same characters in text and in quoted values, except that hexadecimal references stay as they
are written in values. In text, wherever the entity is expanded, a reference to it adds its
characters. In a value the reference is replaced by them, and the value ends at its own quotation
mark, whatever the replacement text holds. -/
theorem entity_in_text_and_value {g : Grammar} {name : String} {entity : Entity}
    {pieces : List Piece} (hname : isToken name = true)
    (hspace : g.dialect.spaceEntity ≠ some name) (hentity : g.dtd.entity? name = some entity)
    (htext : entity.replacement.toList = pieces.flatMap Piece.text) :
    (∀ (s : State) (place : Place) (rest : Source), s.mode = .text place →
        place.honoursReferences = true →
        s.input.upcoming = .ofText ("&" ++ name ++ ";") ++ rest →
        name ∉ s.looked.openNames → s.looked.openNames.length < s.input.maxDepth →
        ∃ actions t, Reaches g s actions t ∧ t.mode = .text place ∧
          t.document = s.document.append (String.ofList (pieces.map Piece.character)) ∧
          t.input.upcoming = rest ∧ actionEvents actions = [] ∧ actionCauses actions = []) ∧
      (∀ (s : State) (tag : Tag) (key : Name) (before after value : String) (rest : Source),
        s.mode = .valueStart tag key →
        s.input.upcoming = .ofText ("\"" ++ before ++ "&" ++ name ++ ";" ++ after ++ "\"") ++ rest →
        (∀ c ∈ (before ++ after).toList, IsQuotable '"' c) →
        value = before ++ String.ofList (pieces.flatMap Piece.inValue) ++ after →
        ∃ actions t, Reaches g s actions t ∧
          t.mode = .attributes
            { tag with attributes := tag.attributes.insert ⟨key.text, value⟩ } ∧
          t.document = s.document ∧ t.input.upcoming = rest ∧ actionEvents actions = [] ∧
          actionCauses actions = undeclaredAttribute g tag.element ⟨key.text, value⟩) ∧
      ((∀ p ∈ pieces, p.isHexadecimal = false) →
        pieces.flatMap Piece.inValue = pieces.map Piece.character) := by
  refine ⟨fun s place rest hmode hplace hup hopen hdepth =>
    reaches_pieces hname hspace hentity htext hmode hplace hup hopen hdepth, ?_, ?_⟩
  · intro s tag key before after value rest hmode hup hplain hvalue
    rw [String.toList_append] at hplain
    have htraverses : Traverses (.before rest) g
        ⟨.valueStart tag key, s.document, '"' :: (before.toList ++
          '&' :: (name.toList ++ ';' :: (after.toList ++ '"' :: [])))⟩ []
        (undeclaredAttribute g tag.element ⟨key.text, value⟩)
        ⟨.attributes { tag with attributes := tag.attributes.insert ⟨key.text, value⟩ },
          s.document, []⟩ :=
      traverses_valueWithEntity hname hspace hentity htext
        (fun c hc => hplain c (List.mem_append_left _ hc))
        (fun c hc => hplain c (List.mem_append_right _ hc)) hvalue
    obtain ⟨actions, t, hreach, ht, hevents, hcauses⟩ := htraverses s ⟨hmode, rfl, by
      show s.input.upcoming = _
      rw [hup]
      simp [Source.ofText]⟩
    exact ⟨actions, t, hreach, ht.mode, ht.document, ht.input, hevents, hcauses⟩
  · exact Piece.flatMap_inValue

/-- Entities whose replacement texts hold quotation marks, the end of a tag and references. -/
def letters : Grammar where
  dtd := (((Dtd.ofRoot "D").addElement (.ofName "D" .pcdata)).addEntity
    ⟨"e", "\">&#60;&#x41;"⟩).addEntity ⟨"a", "&#x41;"⟩
  dialect := .html

/-- The name of an attribute. -/
def letterKey : Name :=
  ⟨"K", "K", by decide +kernel⟩

/-- The pieces of the first entity, and what they stand for in text and in values. -/
theorem exists_letterPieces :
    ∃ pieces : List Piece, "\">&#60;&#x41;".toList = pieces.flatMap Piece.text ∧
      pieces.map Piece.character = "\"><A".toList ∧
      pieces.flatMap Piece.inValue = "\"><&#x41;".toList := by
  refine ⟨[.plain '"' (by decide), .plain '>' (by decide),
    .numeral ⟨none, ['6', '0'], fun _ h => absurd h (by simp), List.all_eq_true.1 (by decide)⟩ '<'
      (by decide),
    .numeral ⟨some 'x', ['4', '1'], fun _ h => .inl (Option.some.inj h).symm,
      List.all_eq_true.1 (by decide)⟩ 'A' (by decide)], ?_, ?_, ?_⟩ <;> decide +kernel

/-- In text the first entity is `"><A`, and a value that it begins ends after it. -/
theorem entity_in_text_and_value_letters :
    letters.dtd.entity? "e" = some ⟨"e", "\">&#60;&#x41;"⟩ ∧
      (∃ actions t, Reaches letters (.start letters (.ofText "&e;")) actions t ∧
        t.mode = .text .content ∧ t.document = Document.start.append "\"><A" ∧
        t.input.upcoming = [] ∧ actionEvents actions = [] ∧ actionCauses actions = []) ∧
      ∃ actions t, Reaches letters
          ⟨.ofSource (.ofText "\"&e;.\">") 1, .valueStart ⟨.ofName "D" .pcdata, .empty⟩ letterKey,
            .start⟩ actions t ∧
        t.mode = .attributes ⟨.ofName "D" .pcdata, Registry.empty.insert ⟨"K", "\"><&#x41;."⟩⟩ ∧
        t.document = .start ∧ t.input.upcoming = .ofText ">" ∧ actionEvents actions = [] ∧
        actionCauses actions = [] := by
  have hentity : letters.dtd.entity? "e" = some ⟨"e", "\">&#60;&#x41;"⟩ := by decide +kernel
  obtain ⟨pieces, hpieces, hcharacters, hvalues⟩ := exists_letterPieces
  obtain ⟨htext, hvalue, -⟩ := entity_in_text_and_value (by decide) (by decide) hentity hpieces
  refine ⟨hentity, ?_, ?_⟩
  · have hread := htext (.start letters (.ofText "&e;")) .content [] rfl rfl (by decide +kernel)
      (by decide +kernel) (by decide +kernel)
    rwa [hcharacters, String.ofList_toList] at hread
  · have hread := hvalue ⟨.ofSource (.ofText "\"&e;.\">") 1,
      .valueStart ⟨.ofName "D" .pcdata, .empty⟩ letterKey, .start⟩ _ letterKey "" "."
      "\"><&#x41;." (.ofText ">") rfl (by decide +kernel) (fun c hc => ?_)
      (by rw [hvalues]; decide +kernel)
    · exact hread
    · obtain rfl : c = '.' := by simpa using hc
      exact ⟨by decide, by decide, by decide, by decide, by decide⟩

/-- A hexadecimal reference in a replacement text does not stand for the same in text and in a
value: there it stays as it is. -/
theorem hexadecimal_text_ne_value :
    ∃ text value, collect letters (.ofText "<D K=\"&a;\">&a;</D>") =
        ([.startTag (.ofName "D" .pcdata) (Registry.empty.insert ⟨"K", value⟩),
          .characterData text false, .endTag (.ofName "D" .pcdata), .finished], [], .ok ()) ∧
      value ≠ text := by
  have hrun : read letters (.ofText "<D K=\"&a;\">&a;</D>") =
      ⟨[.checkpoint, .checkpoint,
        .deliver (.startTag (.ofName "D" .pcdata) (Registry.empty.insert ⟨"K", "&#x41;"⟩)),
        .note "expanding entity &a;", .checkpoint, .checkpoint,
        .deliver (.characterData "A" false), .deliver (.endTag (.ofName "D" .pcdata)),
        .checkpoint, .deliver .finished], .finished⟩ := by
    apply run_of_runWithin (n := 60)
    decide +kernel
  refine ⟨"A", "&#x41;", ?_, by decide⟩
  rw [collect_eq, hrun]
  rfl

end Markup
