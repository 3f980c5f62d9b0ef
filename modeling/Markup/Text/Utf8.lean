/-!
# Decoding UTF-8 step by step

A decoder takes one character at a time from a list of bytes. The first byte alone decides how
many bytes the character takes; these are taken before they are judged, so decoding can go on
after a fault. `decodeNext_length_lt` says that every step takes at least one byte, which is what
lets `decodeAll` run to the end of the bytes.
-/

namespace Markup.Text.Utf8

/-- Why bytes do not form a character. -/
inductive Fault where
  /-- The byte can begin no sequence at all. -/
  | unexpectedByte (byte : UInt8)
  /-- The bytes end before the sequence does. -/
  | truncated
  /-- A sequence of the right length of which only the first `validLength` bytes could begin a
  character. -/
  | malformed (validLength : Nat)
  deriving DecidableEq, Repr

/-- A byte as two upper-case hexadecimal digits. -/
def upperHex (byte : UInt8) : String :=
  String.ofList [Nat.digitChar (byte.toNat / 16), Nat.digitChar (byte.toNat % 16)] |>.toUpper

/-- The wording of a fault. -/
def Fault.message : Fault → String
  | .unexpectedByte byte => "invalid UTF-8: unexpected byte 0x" ++ upperHex byte
  | .truncated => "invalid UTF-8: truncated sequence at end of input"
  | .malformed n =>
    "invalid UTF-8: invalid utf-8 sequence of " ++ toString n ++ " bytes from index 0"

/-- The number of bytes after a first byte, if the byte can begin a sequence. -/
def tailLength? (lead : UInt8) : Option Nat :=
  if lead < 0x80 then some 0
  else if lead < 0xC0 then none
  else if lead < 0xE0 then some 1
  else if lead < 0xF0 then some 2
  else if lead < 0xF8 then some 3
  else none

/-- Whether a byte has the form of a byte after the first. -/
def isTail (byte : UInt8) : Bool :=
  0x80 ≤ byte && byte ≤ 0xBF

/-- Whether the second byte of a sequence may follow its first: no overlong form, no surrogate and
nothing past the last code point begins this way. -/
def secondFits (lead second : UInt8) : Bool :=
  if lead = 0xE0 then 0xA0 ≤ second && second ≤ 0xBF
  else if lead = 0xED then 0x80 ≤ second && second ≤ 0x9F
  else if lead = 0xF0 then 0x90 ≤ second && second ≤ 0xBF
  else if lead = 0xF4 then 0x80 ≤ second && second ≤ 0x8F
  else 0xC2 ≤ lead && lead ≤ 0xF4 && isTail second

/-- The bits that a first byte contributes to its code point. -/
def leadBits (lead : UInt8) : Nat :=
  if lead < 0x80 then lead.toNat
  else if lead < 0xE0 then lead.toNat % 32
  else if lead < 0xF0 then lead.toNat % 16
  else lead.toNat % 8

/-- The code point of a sequence, six bits for each byte after the first. -/
def codePoint (lead : UInt8) (tail : List UInt8) : Nat :=
  tail.foldl (fun n byte => n * 64 + byte.toNat % 64) (leadBits lead)

/-- The character of a sequence of the right length. -/
def decodeSequence (lead : UInt8) (tail : List UInt8) : Except Fault Char :=
  match tail with
  | [] => .ok (Char.ofNat (codePoint lead []))
  | second :: others =>
    if secondFits lead second then
      match others.findIdx? (fun byte => !isTail byte) with
      | some i => .error (.malformed (i + 2))
      | none => .ok (Char.ofNat (codePoint lead tail))
    else .error (.malformed 1)

/-- One step of decoding: a character or a fault, and the bytes after it. -/
def decodeNext : List UInt8 → Option (Except Fault Char × List UInt8)
  | [] => none
  | lead :: rest =>
    match tailLength? lead with
    | none => some (.error (.unexpectedByte lead), rest)
    | some n =>
      let tail := rest.take n
      if tail.length < n then some (.error .truncated, [])
      else some (decodeSequence lead tail, rest.drop n)

/-- A step of decoding takes at least one byte. -/
theorem decodeNext_length_lt {bytes rest : List UInt8} {item : Except Fault Char}
    (h : decodeNext bytes = some (item, rest)) : rest.length < bytes.length := by
  cases bytes with
  | nil => simp [decodeNext] at h
  | cons lead more =>
    simp only [decodeNext] at h
    split at h
    · simp only [Option.some.injEq, Prod.mk.injEq] at h
      simp [← h.2]
    · split at h
      · simp only [Option.some.injEq, Prod.mk.injEq] at h
        simp [← h.2]
      · simp only [Option.some.injEq, Prod.mk.injEq] at h
        simp only [← h.2, List.length_drop, List.length_cons]
        omega

/-- Decoding to the end of the bytes, going on after faults. -/
def decodeAll (bytes : List UInt8) : List (Except Fault Char) :=
  match _h : decodeNext bytes with
  | none => []
  | some (item, rest) => item :: decodeAll rest
termination_by bytes.length
decreasing_by exact decodeNext_length_lt _h

end Markup.Text.Utf8
