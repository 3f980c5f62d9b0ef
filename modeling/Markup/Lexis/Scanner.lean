import Markup.Lexis.CFamily
import Markup.Lexis.Smalltalk

/-!
# Scanners

A scanner says what tokens there are by the characters that are left, without the text that they
stand in. It first goes on with a comment or a literal that was open before the characters, and then
takes token after token, passing over blanks. Each token takes a character or, right before a line
end, closes a literal (`next_load_lt`), so there are finitely many tokens. The tokenizers of a text
are compared with scanners.
-/

namespace Markup.Lexis

/-- A language whose tokens are known. -/
inductive Language where
  /-- A member of the C family. -/
  | cFamily (dialect : CDialect)
  /-- Smalltalk. -/
  | smalltalk
  deriving DecidableEq, Repr

namespace Language

/-- The written form of a language. -/
def name : Language → String
  | cFamily dialect => dialect.name
  | smalltalk => "smalltalk"

/-- The language written as `text`. -/
def ofName? (text : String) : Option Language :=
  if text = "smalltalk" then some smalltalk else (CDialect.ofName? text).map cFamily

/-- The length and the kind of the first token, when nothing is open. -/
def scan : Language → List Char → Nat × TokenKind
  | cFamily dialect => dialect.scan
  | smalltalk => Smalltalk.scan

/-- The length and the kind of the rest of an open comment. -/
def resumeComment (language : Language) (cs : List Char) : Nat × TokenKind :=
  let (n, closed) :=
    match language with
    | cFamily _ => CDialect.commentBody cs
    | smalltalk => Smalltalk.commentBody cs
  (n, commentKind closed)

/-- The length and the kind of the rest of an open literal. -/
def resumeConstant (language : Language) (cs : List Char) : Nat × TokenKind :=
  let (n, closed) :=
    match language with
    | cFamily _ => CDialect.literalBody '"' cs
    | smalltalk => Smalltalk.stringBody cs
  (n, constantKind closed)

end Language

/-- Characters from which tokens are taken. -/
structure Scanner where
  /-- The language of the characters. -/
  language : Language
  /-- Where the first character begins. -/
  position : Nat
  /-- The characters. -/
  rest : List Char
  /-- What is open before them. -/
  state : LexState
  deriving DecidableEq

namespace Scanner

/-- The scanner after some characters. -/
def skip (t : Scanner) (n : Nat) : Scanner :=
  { t with position := t.position + Text.byteLength (t.rest.take n), rest := t.rest.drop n }

/-- Takes a token of a given length and kind. -/
def emit (t : Scanner) (length : Nat) (kind : TokenKind) : Token × Scanner :=
  let t' := t.skip length
  (⟨kind, t.position, t'.position⟩, { t' with state := t.state.after kind })

/-- The number of blanks at the start. -/
def blanks (t : Scanner) : Nat :=
  (t.rest.takeWhile Text.isBlank).length

/-- The next token; after the last character there is one of kind `endOfInput`, again and again. -/
def next (t : Scanner) : Token × Scanner :=
  if t.rest = [] then t.emit 0 .endOfInput
  else if t.state.inComment then
    let (n, kind) := t.language.resumeComment t.rest
    t.emit n kind
  else if t.state.inConstant then
    let (n, kind) := t.language.resumeConstant t.rest
    t.emit n kind
  else
    let t := t.skip t.blanks
    let (n, kind) := t.language.scan t.rest
    t.emit n kind

/-! ## Progress -/

/-- Bounds the number of tokens to come: a character counts twice, an open literal once. -/
def load (t : Scanner) : Nat :=
  2 * t.rest.length + t.state.inConstant.toNat

/-- A token that takes a character lowers the load. -/
theorem load_emit_lt_of_pos {t : Scanner} {n : Nat} (kind : TokenKind) (hn : 0 < n)
    (ht : t.rest ≠ []) : (t.emit n kind).2.load < t.load := by
  have : 0 < t.rest.length := List.length_pos_iff.2 ht
  have := Bool.toNat_le (t.state.after kind).inConstant
  simp only [emit, skip, load, List.length_drop]
  omega

/-- The end of an open literal lowers the load. -/
theorem load_emit_lt_of_closed {t : Scanner} {n : Nat} (h : t.state.inConstant = true) :
    (t.emit n .constant).2.load < t.load := by
  simp only [emit, skip, load, LexState.after, List.length_drop, h, Bool.toNat_true,
    Bool.toNat_false]
  omega

/-- A literal whose rest takes no character ends there. -/
theorem resumeConstant_cases (language : Language) {cs : List Char} (h : cs ≠ []) :
    0 < (language.resumeConstant cs).1 ∨ (language.resumeConstant cs).2 = .constant := by
  cases language with
  | smalltalk => exact .inl (Smalltalk.stringBody_pos h)
  | cFamily dialect =>
    simp only [Language.resumeConstant]
    unfold CDialect.literalBody
    split
    · exact absurd rfl h
    · exact .inl (by simp)
    · exact .inl (by simp)
    · exact .inl (by simp)
    · split
      · exact .inl (by simp)
      · split
        · exact .inr (by simp [constantKind])
        · exact .inl (by simp)

/-- The rest of a comment takes a character. -/
theorem resumeComment_pos (language : Language) {cs : List Char} (h : cs ≠ []) :
    0 < (language.resumeComment cs).1 := by
  cases language with
  | smalltalk => exact Smalltalk.commentBody_pos h
  | cFamily dialect => exact CDialect.commentBody_pos h

/-- A first token takes a character. -/
theorem scan_pos (language : Language) {cs : List Char} (h : cs ≠ []) :
    0 < (language.scan cs).1 := by
  cases language with
  | smalltalk => exact Smalltalk.scan_pos h
  | cFamily dialect => exact dialect.scan_pos h

/-- After the last character there is no first token. -/
theorem scan_nil (language : Language) : (language.scan []).2 = .endOfInput := by
  cases language <;> rfl

/-- Every token but the last lowers the load. -/
theorem next_load_lt {t u : Scanner} {token : Token} (h : t.next = (token, u))
    (hkind : token.kind ≠ .endOfInput) : u.load < t.load := by
  unfold next at h
  split at h
  · rw [emit] at h
    cases h
    exact absurd rfl hkind
  · rename_i hrest
    split at h
    · have := load_emit_lt_of_pos (t.language.resumeComment t.rest).2
        (resumeComment_pos t.language hrest) hrest
      simp only at h
      rwa [h] at this
    · split at h
      · rename_i hstate
        simp only at h
        rcases resumeConstant_cases t.language hrest with hpos | hclosed
        · have := load_emit_lt_of_pos (t.language.resumeConstant t.rest).2 hpos hrest
          rwa [h] at this
        · have := load_emit_lt_of_closed (n := (t.language.resumeConstant t.rest).1) hstate
          rw [hclosed] at h
          rwa [h] at this
      · simp only at h
        have hskip : (t.skip t.blanks).load ≤ t.load := by
          simp only [load, skip, List.length_drop]
          omega
        by_cases hnil : (t.skip t.blanks).rest = []
        · have hlang : (t.skip t.blanks).language = t.language := rfl
          have hend := scan_nil t.language
          rw [hlang, hnil, emit] at h
          cases h
          exact absurd hend hkind
        · have := load_emit_lt_of_pos (t := t.skip t.blanks)
            ((t.skip t.blanks).language.scan (t.skip t.blanks).rest).2
            (scan_pos (t.skip t.blanks).language hnil) hnil
          rw [h] at this
          exact Nat.lt_of_lt_of_le this hskip

/-- The tokens up to the end, and the scanner there. -/
def all (t : Scanner) : List Token × Scanner :=
  match _h : t.next with
  | (token, u) =>
    if _hkind : token.kind = .endOfInput then ([], u)
    else
      let (tokens, last) := u.all
      (token :: tokens, last)
termination_by t.load
decreasing_by exact next_load_lt _h _hkind

section

variable {t u : Scanner} {token : Token}

/-- What follows depends on the next token alone. -/
theorem all_congr (h : t.next = u.next) : t.all = u.all := by
  rw [all, h, ← all]

/-- At the end there are no tokens. -/
theorem all_of_end (h : t.next = (token, u)) (hkind : token.kind = .endOfInput) :
    t.all = ([], u) := by
  rw [all, h]
  exact dif_pos hkind

/-- The next token comes before the others. -/
theorem all_of_next (h : t.next = (token, u)) (hkind : token.kind ≠ .endOfInput) :
    t.all = (token :: u.all.1, u.all.2) := by
  rw [all, h]
  exact dif_neg hkind

end

end Scanner

end Markup.Lexis
