/-!
# Indented JSON

A report that programs read is a JSON value. It is written with each element and each member on
lines of its own, indented by two spaces more than what it belongs to; empty lists and objects stay
on one line. Within a string only the quote, the backslash and the control characters below U+0020
are escaped.
-/

namespace Markup.Text

/-- A value of a report. -/
inductive Json where
  /-- A string. -/
  | string (text : String)
  /-- A number. -/
  | number (n : Nat)
  /-- A truth value. -/
  | boolean (b : Bool)
  /-- A list. -/
  | list (elements : List Json)
  /-- An object; its members keep their order. -/
  | object (members : List (String × Json))

namespace Json

/-! ## Strings -/

/-- A digit of base sixteen in lower case. -/
def hexDigit (n : Nat) : Char :=
  if n < 10 then Char.ofNat ('0'.toNat + n) else Char.ofNat ('a'.toNat + (n - 10))

/-- A character inside a string. -/
def escape (c : Char) : String :=
  if c = '"' then "\\\""
  else if c = '\\' then "\\\\"
  else if c = '\n' then "\\n"
  else if c = '\r' then "\\r"
  else if c = '\t' then "\\t"
  else if c = '\x08' then "\\b"
  else if c = '\x0c' then "\\f"
  else if c.toNat < 0x20 then
    "\\u00" ++ String.ofList [hexDigit (c.toNat / 16), hexDigit (c.toNat % 16)]
  else String.singleton c

/-- A string in quotes. -/
def encode (text : String) : String :=
  "\"" ++ String.join (text.toList.map escape) ++ "\""

/-! ## Layout -/

/-- Puts a comma after the last line of every item but the last item. -/
def separate : List (List String) → List String
  | [] => []
  | [last] => last
  | item :: items => item.dropLast ++ (item.getLast?.map (· ++ ",")).toList ++ separate items

/-- The lines of items between two brackets. -/
def bracket (opening closing : String) (items : List (List String)) : List String :=
  if items.isEmpty then [opening ++ closing]
  else opening :: (separate items).map ("  " ++ ·) ++ [closing]

/-- The lines of a value after the name of its member. -/
def label (name : String) : List String → List String
  | [] => []
  | line :: rest => (encode name ++ ": " ++ line) :: rest

mutual

/-- The lines of a value. -/
def lines : Json → List String
  | string text => [encode text]
  | number n => [toString n]
  | boolean b => [if b then "true" else "false"]
  | list elements => bracket "[" "]" (linesOfElements elements)
  | object members => bracket "\x7b" "\x7d" (linesOfMembers members)

/-- The lines of each element. -/
def linesOfElements : List Json → List (List String)
  | [] => []
  | value :: rest => lines value :: linesOfElements rest

/-- The lines of each member. -/
def linesOfMembers : List (String × Json) → List (List String)
  | [] => []
  | (name, value) :: rest => label name (lines value) :: linesOfMembers rest

end

/-- The written form of a value, without a line end after it. -/
def pretty (value : Json) : String :=
  "\n".intercalate value.lines

end Json

end Markup.Text
