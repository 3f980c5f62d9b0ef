import Markup.Text.Utf8

/-!
# The bytes of a character

The decoder judges the bytes of a sequence one by one. Here they are numbers (`Spells`): the bytes
of a code point are its bits in groups of six, with what marks the first byte and the others added.
A sequence is decoded to a character exactly if it spells the character's code point, and so does
the encoding of the library (`decodeNext_utf8EncodeChar`, `eq_of_decodeNext`).
-/

namespace Markup.Text.Utf8

variable {lead second : UInt8} {tail others bytes rest : List UInt8} {c : Char} {n : Nat}

/-- The bytes of a code point. -/
inductive Spells (n : Nat) : List UInt8 → Prop
  /-- Seven bits in one byte. -/
  | one {a : UInt8} : n < 0x80 → a.toNat = n → Spells n [a]
  /-- Eleven bits in two bytes. -/
  | two {a b : UInt8} : 0x80 ≤ n → n < 0x800 → a.toNat = 0xC0 + n / 64 →
      b.toNat = 0x80 + n % 64 → Spells n [a, b]
  /-- Sixteen bits in three bytes. -/
  | three {a b c : UInt8} : 0x800 ≤ n → n < 0x10000 → a.toNat = 0xE0 + n / 4096 →
      b.toNat = 0x80 + n / 64 % 64 → c.toNat = 0x80 + n % 64 → Spells n [a, b, c]
  /-- Twenty-one bits in four bytes. -/
  | four {a b c d : UInt8} : 0x10000 ≤ n → a.toNat = 0xF0 + n / 262144 →
      b.toNat = 0x80 + n / 4096 % 64 → c.toNat = 0x80 + n / 64 % 64 → d.toNat = 0x80 + n % 64 →
      Spells n [a, b, c, d]

/-- A number is spelt in one way. -/
theorem Spells.unique {others : List UInt8} (h : Spells n bytes) (h' : Spells n others) :
    bytes = others := by
  cases h with
  | one hn ha =>
    cases h' with
    | one _ ha' => rw [UInt8.toNat_inj.1 (ha.trans ha'.symm)]
    | _ => omega
  | two hlow hhigh ha hb =>
    cases h' with
    | two _ _ ha' hb' =>
      rw [UInt8.toNat_inj.1 (ha.trans ha'.symm), UInt8.toNat_inj.1 (hb.trans hb'.symm)]
    | _ => omega
  | three hlow hhigh ha hb hc =>
    cases h' with
    | three _ _ ha' hb' hc' =>
      rw [UInt8.toNat_inj.1 (ha.trans ha'.symm), UInt8.toNat_inj.1 (hb.trans hb'.symm),
        UInt8.toNat_inj.1 (hc.trans hc'.symm)]
    | _ => omega
  | four hlow ha hb hc hd =>
    cases h' with
    | four _ ha' hb' hc' hd' =>
      rw [UInt8.toNat_inj.1 (ha.trans ha'.symm), UInt8.toNat_inj.1 (hb.trans hb'.symm),
        UInt8.toNat_inj.1 (hc.trans hc'.symm), UInt8.toNat_inj.1 (hd.trans hd'.symm)]
    | _ => omega

theorem toNat_isValidChar (c : Char) : c.toNat.isValidChar := c.valid

/-- A valid number is the one of its character. -/
theorem toNat_ofNat (h : n.isValidChar) : (Char.ofNat n).toNat = n := by
  rw [Char.ofNat, dif_pos h]
  rfl

/-- The encoding of a character spells its code point. -/
theorem spells_utf8EncodeChar (c : Char) : Spells c.toNat (String.utf8EncodeChar c) := by
  have hvalid := toNat_isValidChar c
  have hbyte {m : Nat} (h : m < 256) : (UInt8.ofNat m).toNat = m := by
    rw [UInt8.toNat_ofNat']
    exact Nat.mod_eq_of_lt h
  simp only [String.utf8EncodeChar, Char.toNat_val]
  split
  · exact .one (by omega) (hbyte (by omega))
  · split
    · refine .two (by omega) (by omega) ?_ ?_ <;> rw [hbyte (by omega)] <;> omega
    · split
      · refine .three (by omega) (by omega) ?_ ?_ ?_ <;> rw [hbyte (by omega)] <;> omega
      · refine .four (by omega) ?_ ?_ ?_ ?_ <;> rw [hbyte (by omega)] <;> omega

/-! ## Bytes as numbers -/

/-- The range of the bytes after the first. -/
theorem isTail_iff {byte : UInt8} :
    isTail byte = true ↔ 0x80 ≤ byte.toNat ∧ byte.toNat ≤ 0xBF := by
  simp only [isTail, UInt8.le_iff_toNat_le, UInt8.reduceToNat, Bool.and_eq_true,
    decide_eq_true_eq]

/-- The ranges of the second byte, for each first one. -/
theorem secondFits_iff :
    secondFits lead second = true ↔
      (0xC2 ≤ lead.toNat ∧ lead.toNat ≤ 0xF4) ∧ (0x80 ≤ second.toNat ∧ second.toNat ≤ 0xBF) ∧
      (lead.toNat = 0xE0 → 0xA0 ≤ second.toNat) ∧ (lead.toNat = 0xED → second.toNat ≤ 0x9F) ∧
      (lead.toNat = 0xF0 → 0x90 ≤ second.toNat) ∧ (lead.toNat = 0xF4 → second.toNat ≤ 0x8F) := by
  simp only [secondFits, isTail, ← UInt8.toNat_inj, UInt8.le_iff_toNat_le, UInt8.reduceToNat]
  grind

/-- The first byte tells how many follow. -/
theorem tailLength?_eq_some_iff :
    tailLength? lead = some n ↔
      (n = 0 ∧ lead.toNat < 0x80) ∨ (n = 1 ∧ 0xC0 ≤ lead.toNat ∧ lead.toNat < 0xE0) ∨
      (n = 2 ∧ 0xE0 ≤ lead.toNat ∧ lead.toNat < 0xF0) ∨
      (n = 3 ∧ 0xF0 ≤ lead.toNat ∧ lead.toNat < 0xF8) := by
  simp only [tailLength?, UInt8.lt_iff_toNat_lt, UInt8.reduceToNat]
  grind

/-- The bits of a first byte are what it is more than the least of its length. -/
theorem leadBits_eq (lead : UInt8) :
    (lead.toNat < 0x80 → leadBits lead = lead.toNat) ∧
      (0xC0 ≤ lead.toNat → lead.toNat < 0xE0 → leadBits lead = lead.toNat - 0xC0) ∧
      (0xE0 ≤ lead.toNat → lead.toNat < 0xF0 → leadBits lead = lead.toNat - 0xE0) ∧
      (0xF0 ≤ lead.toNat → lead.toNat < 0xF8 → leadBits lead = lead.toNat - 0xF0) := by
  simp only [leadBits, UInt8.lt_iff_toNat_lt, UInt8.reduceToNat]
  grind

/-- A sequence of more than one byte is a character if its bytes after the first fit. -/
theorem decodeSequence_cons_iff :
    decodeSequence lead (second :: others) = .ok c ↔
      secondFits lead second = true ∧ (∀ byte ∈ others, isTail byte = true) ∧
        Char.ofNat (codePoint lead (second :: others)) = c := by
  have hfind : others.findIdx? (fun byte => !isTail byte) = none ↔
      ∀ byte ∈ others, isTail byte = true := by
    simp only [List.findIdx?_eq_none_iff, Bool.not_eq_false']
  simp only [decodeSequence]
  split
  · rename_i hsecond
    split
    · rename_i hindex
      refine ⟨nofun, fun h => ?_⟩
      rw [hfind.2 h.2.1] at hindex
      cases hindex
    · rename_i hnone
      exact ⟨fun h => ⟨hsecond, hfind.1 hnone, Except.ok.inj h⟩, fun h => congrArg _ h.2.2⟩
  · rename_i hsecond
    exact ⟨nofun, fun h => absurd h.1 hsecond⟩

/-! ## Sequences -/

/-- The first byte tells how many follow. -/
theorem Spells.tailLength? (h : Spells n (lead :: tail)) (hn : n.isValidChar) :
    Utf8.tailLength? lead = some tail.length := by
  rw [tailLength?_eq_some_iff]
  cases h with
  | one hlow ha => exact .inl ⟨rfl, by omega⟩
  | two hlow hhigh ha => exact .inr (.inl ⟨rfl, by omega⟩)
  | three hlow hhigh ha => exact .inr (.inr (.inl ⟨rfl, by omega⟩))
  | four hlow ha => exact .inr (.inr (.inr ⟨rfl, by omega⟩))

/-- Bytes that spell a character are a sequence for it. -/
theorem decodeSequence_of_spells (h : Spells c.toNat (lead :: tail)) :
    decodeSequence lead tail = .ok c := by
  have hvalid := toNat_isValidChar c
  have hbits := leadBits_eq lead
  have hchar {m : Nat} (hm : m = c.toNat) : Char.ofNat m = c := by rw [hm, Char.ofNat_toNat]
  generalize c.toNat = n at h hvalid hchar
  cases h with
  | one hlow ha =>
    have hpoint : leadBits lead = n := by omega
    exact congrArg Except.ok (hchar hpoint)
  | @two a b hlow hhigh ha hb =>
    have hpoint : leadBits lead * 64 + b.toNat % 64 = n := by omega
    refine decodeSequence_cons_iff.2 ⟨secondFits_iff.2 (by omega), ?_, hchar hpoint⟩
    exact List.forall_mem_nil _
  | @three a b x hlow hhigh ha hb hx =>
    have hpoint : (leadBits lead * 64 + b.toNat % 64) * 64 + x.toNat % 64 = n := by omega
    refine decodeSequence_cons_iff.2 ⟨secondFits_iff.2 (by omega), ?_, hchar hpoint⟩
    exact List.forall_mem_singleton.2 (isTail_iff.2 (by omega))
  | @four a b x y hlow ha hb hx hy =>
    have hpoint : ((leadBits lead * 64 + b.toNat % 64) * 64 + x.toNat % 64) * 64 +
        y.toNat % 64 = n := by omega
    refine decodeSequence_cons_iff.2 ⟨secondFits_iff.2 (by omega), ?_, hchar hpoint⟩
    exact List.forall_mem_cons.2
      ⟨isTail_iff.2 (by omega), List.forall_mem_singleton.2 (isTail_iff.2 (by omega))⟩

/-- A sequence for a character spells it. -/
theorem spells_of_decodeSequence (hlength : Utf8.tailLength? lead = some tail.length)
    (h : decodeSequence lead tail = .ok c) : Spells c.toNat (lead :: tail) := by
  rw [tailLength?_eq_some_iff] at hlength
  have hbits := leadBits_eq lead
  match tail, hlength, h with
  | [], hlength, h =>
    have hlow : lead.toNat < 0x80 := by simpa using hlength
    have hpoint : leadBits lead = lead.toNat := by omega
    cases h
    show Spells (Char.ofNat (leadBits lead)).toNat [lead]
    rw [toNat_ofNat (by omega)]
    exact .one (by omega) hpoint.symm
  | [b], hlength, h =>
    have hlead : 0xC0 ≤ lead.toNat ∧ lead.toNat < 0xE0 := by simpa using hlength
    obtain ⟨hsecond, -, rfl⟩ := decodeSequence_cons_iff.1 h
    rw [secondFits_iff] at hsecond
    show Spells (Char.ofNat (leadBits lead * 64 + b.toNat % 64)).toNat [lead, b]
    rw [toNat_ofNat (by omega)]
    exact .two (by omega) (by omega) (by omega) (by omega)
  | [b, x], hlength, h =>
    have hlead : 0xE0 ≤ lead.toNat ∧ lead.toNat < 0xF0 := by simpa using hlength
    obtain ⟨hsecond, htail, rfl⟩ := decodeSequence_cons_iff.1 h
    rw [secondFits_iff] at hsecond
    have hx := isTail_iff.1 (htail x (by simp))
    show Spells (Char.ofNat ((leadBits lead * 64 + b.toNat % 64) * 64 + x.toNat % 64)).toNat
      [lead, b, x]
    rw [toNat_ofNat (by omega)]
    exact .three (by omega) (by omega) (by omega) (by omega) (by omega)
  | [b, x, y], hlength, h =>
    have hlead : 0xF0 ≤ lead.toNat ∧ lead.toNat < 0xF8 := by simpa using hlength
    obtain ⟨hsecond, htail, rfl⟩ := decodeSequence_cons_iff.1 h
    rw [secondFits_iff] at hsecond
    have hx := isTail_iff.1 (htail x (by simp))
    have hy := isTail_iff.1 (htail y (by simp))
    show Spells (Char.ofNat (((leadBits lead * 64 + b.toNat % 64) * 64 + x.toNat % 64) * 64 +
      y.toNat % 64)).toNat [lead, b, x, y]
    rw [toNat_ofNat (by omega)]
    exact .four (by omega) (by omega) (by omega) (by omega) (by omega)
  | _ :: _ :: _ :: _ :: _, hlength, h =>
    simp only [List.length_cons] at hlength
    omega

/-! ## Steps -/

/-- A step takes as many bytes as the first one tells, if there are as many. -/
theorem decodeNext_append (h : tailLength? lead = some tail.length) (rest : List UInt8) :
    decodeNext (lead :: tail ++ rest) = some (decodeSequence lead tail, rest) := by
  rw [List.cons_append, decodeNext, h]
  simp only [List.take_left, List.drop_left, Nat.lt_irrefl, if_false]

/-- A step that gives a character takes a sequence. -/
theorem exists_of_decodeNext (h : decodeNext bytes = some (.ok c, rest)) :
    ∃ lead tail, bytes = lead :: tail ++ rest ∧ tailLength? lead = some tail.length ∧
      decodeSequence lead tail = .ok c := by
  cases bytes with
  | nil => cases h
  | cons lead more =>
    rw [decodeNext] at h
    split at h
    · cases h
    · rename_i n hn
      simp only at h
      split at h
      · cases h
      · rename_i hlength
        obtain ⟨hseq, rfl⟩ := Prod.mk.inj (Option.some.inj h)
        have hn' : (more.take n).length = n := by
          rw [List.length_take] at hlength ⊢
          omega
        refine ⟨lead, more.take n, ?_, by rw [hn, hn'], hseq⟩
        rw [List.cons_append, List.take_append_drop]

/-- The encoding of a character is decoded to it. -/
theorem decodeNext_utf8EncodeChar (c : Char) (rest : List UInt8) :
    decodeNext (String.utf8EncodeChar c ++ rest) = some (.ok c, rest) := by
  have hspells := spells_utf8EncodeChar c
  generalize String.utf8EncodeChar c = bytes at hspells
  cases bytes with
  | nil => cases hspells
  | cons lead tail =>
    rw [decodeNext_append (hspells.tailLength? (toNat_isValidChar c)),
      decodeSequence_of_spells hspells]

/-- What is decoded to a character is its encoding. -/
theorem eq_of_decodeNext (h : decodeNext bytes = some (.ok c, rest)) :
    bytes = String.utf8EncodeChar c ++ rest := by
  obtain ⟨lead, tail, rfl, hlength, hseq⟩ := exists_of_decodeNext h
  rw [(spells_of_decodeSequence hlength hseq).unique (spells_utf8EncodeChar c)]

end Markup.Text.Utf8
