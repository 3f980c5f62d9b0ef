import Markup.Proofs.Text.Utf8
import Markup.Session

/-!
# Decoding is exact

A source of bytes first gives the characters of the longest part from the start that is UTF-8. Then
it is at its end, or a read fails because the data is invalid (`DecodedExactly`, `decodedExactly`).
The encoding of a text is read as the text is (`ofBytes_toUTF8`).
-/

namespace Markup

open Markup.Text

namespace Text.Utf8

variable {bytes rest : List UInt8} {item : Except Fault Char} {cs ds : List Char} {c : Char}

/-! ## Steps -/

/-- Something is decoded unless nothing is left. -/
theorem decodeNext_eq_none : decodeNext bytes = none ↔ bytes = [] := by
  cases bytes with
  | nil => exact ⟨fun _ => rfl, fun _ => rfl⟩
  | cons lead more =>
    refine ⟨fun h => ?_, nofun⟩
    rw [decodeNext] at h
    split at h
    · cases h
    · simp only at h
      split at h <;> cases h

/-- A step takes bytes, whether it gives a character or a fault. -/
theorem exists_taken (h : decodeNext bytes = some (item, rest)) :
    ∃ taken, taken ≠ [] ∧ bytes = taken ++ rest := by
  have hlength := decodeNext_length_lt h
  have hsuffix : rest <:+ bytes := by
    cases bytes with
    | nil => cases h
    | cons lead more =>
      rw [decodeNext] at h
      split at h
      · obtain ⟨-, rfl⟩ := Prod.mk.inj (Option.some.inj h)
        exact List.suffix_cons lead _
      · rename_i n _
        simp only at h
        split at h
        · obtain ⟨-, rfl⟩ := Prod.mk.inj (Option.some.inj h)
          exact List.nil_suffix
        · obtain ⟨-, rfl⟩ := Prod.mk.inj (Option.some.inj h)
          exact (List.drop_suffix n more).trans (List.suffix_cons lead more)
  obtain ⟨taken, rfl⟩ := hsuffix
  refine ⟨taken, ?_, rfl⟩
  rintro rfl
  exact Nat.lt_irrefl _ hlength

/-- Nothing is decoded from no bytes. -/
theorem decodeAll_nil : decodeAll [] = [] := by
  rw [decodeAll]
  rfl

/-- What is decoded first comes before the rest. -/
theorem decodeAll_of_decodeNext (h : decodeNext bytes = some (item, rest)) :
    decodeAll bytes = item :: decodeAll rest := by
  rw [decodeAll, h]

/-! ## Characters -/

/-- Encoded characters are decoded one after the other. -/
theorem decodeAll_append (cs : List Char) (rest : List UInt8) :
    decodeAll (cs.flatMap String.utf8EncodeChar ++ rest) = cs.map .ok ++ decodeAll rest := by
  induction cs with
  | nil => rfl
  | cons c cs ih =>
    rw [List.flatMap_cons, List.append_assoc,
      decodeAll_of_decodeNext (decodeNext_utf8EncodeChar c _), ih]
    rfl

/-- The characters at the start of bytes, up to where there is no character. -/
theorem exists_characters (bytes : List UInt8) :
    ∃ (cs : List Char) (rest : List UInt8), bytes = cs.flatMap String.utf8EncodeChar ++ rest ∧
      ∀ c more, decodeNext rest ≠ some (.ok c, more) := by
  fun_induction decodeAll bytes with
  | case1 bytes hnone => exact ⟨[], bytes, rfl, fun c more h => by rw [hnone] at h; cases h⟩
  | case2 bytes item rest hnext ih =>
    cases item with
    | error fault =>
      refine ⟨[], bytes, rfl, fun c more h => ?_⟩
      rw [hnext] at h
      cases h
    | ok c =>
      obtain ⟨cs, more, rfl, hmore⟩ := ih
      refine ⟨c :: cs, more, ?_, hmore⟩
      rw [eq_of_decodeNext hnext, List.flatMap_cons, List.append_assoc]

/-- Characters whose encoding is at the start of bytes are at the start of all characters there. -/
theorem prefix_of_append_eq {more : List UInt8}
    (h : ds.flatMap String.utf8EncodeChar ++ more = cs.flatMap String.utf8EncodeChar ++ rest)
    (hrest : ∀ c more, decodeNext rest ≠ some (.ok c, more)) : ds <+: cs := by
  induction ds generalizing cs with
  | nil => exact List.nil_prefix
  | cons d ds ih =>
    have hd := decodeNext_utf8EncodeChar d (ds.flatMap String.utf8EncodeChar ++ more)
    rw [← List.append_assoc, ← List.flatMap_cons, h] at hd
    cases cs with
    | nil => exact absurd hd (hrest d _)
    | cons c cs =>
      rw [List.flatMap_cons, List.append_assoc, decodeNext_utf8EncodeChar] at hd
      obtain ⟨hc, htail⟩ := Prod.mk.inj (Option.some.inj hd)
      obtain rfl := Except.ok.inj hc
      exact List.prefix_cons_inj c |>.2 (ih htail.symm)

/-- Bytes that are UTF-8 encode characters. -/
theorem exists_of_isValidUTF8 (h : bytes.toByteArray.IsValidUTF8) :
    ∃ cs : List Char, bytes = cs.flatMap String.utf8EncodeChar := by
  obtain ⟨cs, hcs⟩ := h
  exact ⟨cs, List.toByteArray_inj.1 hcs⟩

/-- The bytes of a text are those of its characters. -/
theorem toUTF8_toList (text : String) :
    text.toUTF8.data.toList = text.toList.flatMap String.utf8EncodeChar := by
  rw [String.toUTF8_eq_toByteArray, ← String.utf8Encode_toList, List.utf8Encode,
    List.data_toByteArray]

end Text.Utf8

open Text.Utf8

/-! ## Sources -/

namespace Source

/-- There is nothing to read from no bytes. -/
theorem ofBytes_nil : ofBytes [] = [] := by
  rw [ofBytes, decodeAll_nil]
  rfl

/-- The bytes of characters are read as these characters, whatever comes after. -/
theorem ofBytes_append (cs : List Char) (rest : List UInt8) :
    ofBytes (cs.flatMap String.utf8EncodeChar ++ rest) = cs.map .ok ++ ofBytes rest := by
  rw [ofBytes, decodeAll_append, List.map_append, List.map_map]
  rfl

/-- The encoding of a text is read as the text. -/
theorem ofBytes_toUTF8 (text : String) : ofBytes text.toUTF8.data.toList = ofText text := by
  rw [toUTF8_toList, ← List.append_nil (text.toList.flatMap _), ofBytes_append, ofBytes_nil,
    List.append_nil]
  rfl

end Source

/-- What reading bytes gives. -/
structure DecodedExactly (bytes : List UInt8) : Prop where
  /-- First there are the characters of the longest part from the start that is UTF-8. The read
  after them gives the end if there are no more bytes, and else fails. -/
  longest : ∃ (cs : List Char) (valid rest : List UInt8), bytes = valid ++ rest ∧
    valid.toByteArray = (String.ofList cs).toUTF8 ∧
    (∀ part, part <+: bytes → part.toByteArray.IsValidUTF8 → part.length ≤ valid.length) ∧
    (rest = [] → Source.ofBytes bytes = cs.map .ok) ∧
    (rest ≠ [] → ∃ failure more, Source.ofBytes bytes = cs.map .ok ++ .error failure :: more ∧
      failure.kind = .invalidData)
  /-- If no read fails, the bytes are the encoding of what is read. -/
  encoded : ∀ cs, Source.ofBytes bytes = cs.map .ok →
    bytes.toByteArray = (String.ofList cs).toUTF8
  /-- Each read that is not the end takes a part of the bytes, whether it gives a character or
  fails, and leaves the parts after it. -/
  consumes : ∃ parts : List (List UInt8), parts.flatten = bytes ∧
    (∀ part ∈ parts, part ≠ []) ∧ parts.length = (Source.ofBytes bytes).length ∧
    ∀ n item, (decodeAll bytes)[n]? = some item →
      decodeNext (parts.drop n).flatten = some (item, (parts.drop (n + 1)).flatten)

/-- The parts of bytes that the reads take one after the other. -/
theorem exists_parts (bytes : List UInt8) :
    ∃ parts : List (List UInt8), parts.flatten = bytes ∧ (∀ part ∈ parts, part ≠ []) ∧
      parts.length = (decodeAll bytes).length ∧
      ∀ n item, (decodeAll bytes)[n]? = some item →
        decodeNext (parts.drop n).flatten = some (item, (parts.drop (n + 1)).flatten) := by
  fun_induction decodeAll bytes with
  | case1 bytes hnone =>
    exact ⟨[], (decodeNext_eq_none.1 hnone).symm, List.forall_mem_nil _, rfl, nofun⟩
  | case2 bytes item rest hnext ih =>
    obtain ⟨taken, hne, rfl⟩ := exists_taken hnext
    obtain ⟨parts, rfl, hparts, hlength, hreads⟩ := ih
    refine ⟨taken :: parts, rfl, List.forall_mem_cons.2 ⟨hne, hparts⟩, ?_, ?_⟩
    · rw [List.length_cons, List.length_cons, hlength]
    · intro n other hother
      cases n with
      | zero =>
        cases hother
        exact hnext
      | succ n => exact hreads n other hother

/-- A read that is neither a character nor the end fails because the data is invalid. -/
theorem Source.ofBytes_of_not_character {rest : List UInt8} (hne : rest ≠ [])
    (hrest : ∀ c more, decodeNext rest ≠ some (.ok c, more)) :
    ∃ failure more, Source.ofBytes rest = .error failure :: more ∧
      failure.kind = .invalidData := by
  cases hnext : decodeNext rest with
  | none => exact absurd (decodeNext_eq_none.1 hnext) hne
  | some step =>
    obtain ⟨item, more⟩ := step
    cases item with
    | ok c => exact absurd hnext (hrest c more)
    | error fault =>
      refine ⟨.undecodable fault, Source.ofBytes more, ?_, rfl⟩
      rw [Source.ofBytes, decodeAll_of_decodeNext hnext]
      rfl

/-- All bytes are decoded exactly. -/
theorem decodedExactly (bytes : List UInt8) : DecodedExactly bytes := by
  obtain ⟨cs, rest, hbytes, hrest⟩ := exists_characters bytes
  have hreads : Source.ofBytes bytes = cs.map .ok ++ Source.ofBytes rest := by
    rw [hbytes, Source.ofBytes_append]
  have hend : rest = [] → Source.ofBytes bytes = cs.map .ok := by
    rintro rfl
    rw [hreads, Source.ofBytes_nil, List.append_nil]
  have hfails : rest ≠ [] → ∃ failure more,
      Source.ofBytes bytes = cs.map .ok ++ .error failure :: more ∧
        failure.kind = .invalidData := by
    intro hne
    obtain ⟨failure, more, hfailure, hkind⟩ := Source.ofBytes_of_not_character hne hrest
    exact ⟨failure, more, by rw [hreads, hfailure], hkind⟩
  constructor
  case longest =>
    refine ⟨cs, cs.flatMap String.utf8EncodeChar, rest, hbytes, rfl, ?_, hend, hfails⟩
    rintro part ⟨more, hpart⟩ hvalid
    obtain ⟨ds, rfl⟩ := exists_of_isValidUTF8 hvalid
    obtain ⟨others, rfl⟩ := prefix_of_append_eq (hpart.trans hbytes) hrest
    rw [List.flatMap_append, List.length_append]
    exact Nat.le_add_right _ _
  case encoded =>
    intro ds hds
    by_cases hne : rest = []
    · have hsame : cs.map Except.ok = ds.map Except.ok := (hend hne).symm.trans hds
      have hcs : cs = ds := (List.map_inj_right fun _ _ => Except.ok.inj).1 hsame
      rw [hbytes, hne, List.append_nil, hcs]
      rfl
    · obtain ⟨failure, more, hfailure, -⟩ := hfails hne
      have hmem : .error failure ∈ ds.map Except.ok := by
        rw [← hds, hfailure]
        exact List.mem_append_right _ List.mem_cons_self
      obtain ⟨c, -, hc⟩ := List.mem_map.1 hmem
      cases hc
  case consumes =>
    obtain ⟨parts, hflatten, hne, hlength, hsteps⟩ := exists_parts bytes
    exact ⟨parts, hflatten, hne, hlength.trans (List.length_map _).symm, hsteps⟩

/-- Bytes are decoded exactly, and parsing the encoding of a text comes to the same as parsing the
text: the same events for the listeners, the same issues and the same result. -/
theorem parse_ofBytes {α : Type} [Listener α] (bytes : List UInt8) (text : String)
    (s : Session α) :
    DecodedExactly bytes ∧
      Source.ofBytes text.toUTF8.data.toList = Source.ofText text ∧
      s.parse (Source.ofBytes text.toUTF8.data.toList) = s.parse (Source.ofText text) :=
  ⟨decodedExactly bytes, Source.ofBytes_toUTF8 text, by rw [Source.ofBytes_toUTF8]⟩

end Markup
