import Markup.Proofs.Reader.NumericReferences

/-!
# Numeric references denote their number

A numeric reference in text or in the value of an attribute stands for the character whose number
its digits write, however many digits there are and whatever zeros they begin with. It stands for
nothing when there are no digits or when no character has the number. Either way exactly the
reference is taken, with its semicolon if it has one, and the character is not read again
(`numeral_read_exactly`).
-/

namespace Markup

open Reader

/-- The reads after a reference without a semicolon: the end of the input, or a character before
which the reference ends. -/
def Numeral.EndsAt (n : Numeral) : Source → Prop
  | [] => True
  | .ok c :: _ => n.EndsBefore c
  | .error _ :: _ => False

/-- A numeric reference denotes a character just when its digits write the number of the character.
Wherever references are recognised, reading it adds the character that it denotes, or nothing, to
the text or the value, leaves what comes after it, and delivers and reports nothing. -/
theorem numeral_read_exactly (n : Numeral) (semicolon : Bool) {rest : Source}
    (hrest : semicolon = false → n.EndsAt rest) :
    (∀ c, n.character? = some c ↔ n.digits ≠ [] ∧ c.toNat = n.value) ∧
      ∀ (g : Grammar) (site : Site) (s : State), site.HonoursReferences → s.mode = site.mode →
        s.input.upcoming = (n.text ++ if semicolon then [';'] else []).map .ok ++ rest →
        ∃ actions t, Reaches g s actions t ∧ t.mode = site.modeAfter n.expansion ∧
          t.document = site.documentAfter s.document n.expansion ∧ t.input.upcoming = rest ∧
          actionEvents actions = [] ∧ actionCauses actions = [] := by
  refine ⟨fun c => Numeral.character?_eq_some_iff, fun g site s hsite hmode hinput => ?_⟩
  -- an unterminated reference looks at the character after it, so that one is traversed with it
  obtain ⟨cs, after, rfl, hend, hcs⟩ : ∃ (cs : List Char) (after : Source),
      rest = cs.map .ok ++ after ∧ (semicolon = false → cs = [] → (Feed.before after).Ends) ∧
        (semicolon = false → ∀ c, cs.head? = some c → n.EndsBefore c) := by
    cases semicolon with
    | true => exact ⟨[], rest, rfl, nofun, nofun⟩
    | false =>
      match rest, hrest rfl with
      | [], _ => exact ⟨[], [], rfl, fun _ _ => Feed.ends_before, fun _ _ h => nomatch h⟩
      | .ok c :: rest, hc =>
        refine ⟨[c], rest, rfl, fun _ => nofun, fun _ x hx => ?_⟩
        rwa [← Option.some.inj hx]
  obtain ⟨actions, t, hreach, ht, hevents, hcauses⟩ :=
    Numeral.traverses (f := .before after) (g := g) rfl site hsite semicolon hend hcs s
      ⟨hmode, rfl, by
        show s.input.upcoming = _
        rw [hinput, ← List.append_assoc, ← List.map_append]⟩
  exact ⟨actions, t, hreach, ht.mode, ht.document, ht.input, hevents, hcauses⟩

/-- A hexadecimal reference with leading zeros. -/
def paddedNumeral : Numeral where
  mark := some 'x'
  digits := ['0', '0', '0', '0', '0', '0', '0', '3', 'c']
  marked := by
    rintro c ⟨⟩
    exact .inl rfl
  isDigit := List.all_eq_true.1 (by decide)

/-- The `<` of a reference without a semicolon does not begin the tag that it would begin. -/
theorem numeral_read_exactly_open :
    paddedNumeral.EndsAt (.ofText "P>") ∧ paddedNumeral.character? = some '<' ∧
      ∃ actions t, Reaches ⟨.ofRoot "P", .html⟩
          (.start ⟨.ofRoot "P", .html⟩ (.ofText "&#x00000003cP>")) actions t ∧
        t.mode = .text .content ∧ t.document = Document.start.append "<" ∧
        t.input.upcoming = .ofText "P>" ∧ actionEvents actions = [] ∧
        actionCauses actions = [] := by
  have hend : paddedNumeral.EndsAt (.ofText "P>") := ⟨by decide, by decide, nofun⟩
  obtain ⟨hdenotes, hread⟩ := numeral_read_exactly paddedNumeral false fun _ => hend
  have hcharacter : paddedNumeral.character? = some '<' :=
    (hdenotes '<').2 ⟨by decide, by decide +kernel⟩
  have hexpansion : paddedNumeral.expansion = "<" := by
    rw [Numeral.expansion, hcharacter]
    rfl
  have hreach := hread ⟨.ofRoot "P", .html⟩ (.text .content)
    (.start ⟨.ofRoot "P", .html⟩ (.ofText "&#x00000003cP>")) rfl rfl (by decide +kernel)
  rw [hexpansion] at hreach
  exact ⟨hend, hcharacter, hreach⟩

end Markup
