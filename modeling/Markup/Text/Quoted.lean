import Markup.Text.Masked

/-!
# Quoted text

Messages show texts and characters between quotation marks. Inside them the usual control
characters have two-character forms, a masked character is shown as its code point in lower-case
hexadecimal, and the mark that encloses the text is preceded by a backslash. Every other character
stands for itself.
-/

namespace Markup.Text

/-- A code point in lower-case hexadecimal without leading zeros, marked as a code point. -/
def codePointForm (c : Char) : String :=
  "\\u\x7b" ++ String.ofList (Nat.toDigits 16 c.toNat) ++ "\x7d"

/-- The form of a character between two copies of `mark`. -/
def quotedForm (mark c : Char) : String :=
  if c = '\x00' then "\\0"
  else if c = '\t' then "\\t"
  else if c = '\r' then "\\r"
  else if c = '\n' then "\\n"
  else if c = '\\' then "\\\\"
  else if c = mark then String.ofList ['\\', mark]
  else if isMasked c then codePointForm c
  else String.singleton c

/-- A text between double quotation marks. -/
def quote (text : String) : String :=
  text.toList.foldl (fun out c => out ++ quotedForm '"' c) "\"" ++ "\""

/-- A character between single quotation marks. -/
def quoteChar (c : Char) : String :=
  "'" ++ quotedForm '\'' c ++ "'"

end Markup.Text
