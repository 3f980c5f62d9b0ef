/-!
# Options and operands

The words of a command line are options, their values and operands. A long option is written
`--name` or `--name=value`, a short one `-n`, `-nvalue` or `-n=value`; an option that takes a value
and has none attached takes the next word, which must not look like an option. After `--` every
word is an operand. A single hyphen is an ordinary word.
-/

namespace Markup.CommandLine

/-- An option that a command knows. -/
structure OptionForm where
  /-- The long name. -/
  name : String
  /-- The short name. -/
  short : Option Char
  /-- Whether the option takes a value. -/
  takesValue : Bool
  deriving DecidableEq, Repr

/-- The words of a command line, sorted. -/
structure Arguments where
  /-- The options by their long names, each with its value, in order. -/
  options : List (String × Option String)
  /-- The operands in order. -/
  operands : List String
  deriving DecidableEq, Repr

/-! ## Words -/

/-- What a word is by its looks. -/
inductive Word where
  /-- The mark after which every word is an operand. -/
  | separator
  /-- A long option, with the value attached to it. -/
  | long (name : String) (value : Option String)
  /-- A short option and the characters after it. -/
  | short (letter : Char) (attached : List Char)
  /-- Any other word. -/
  | plain
  deriving DecidableEq, Repr

/-- The name and the value of a long option. -/
def Word.ofLong (body : List Char) : Word :=
  let name := String.ofList (body.takeWhile (· ≠ '='))
  match body.dropWhile (· ≠ '=') with
  | [] => .long name none
  | _ :: value => .long name (some (String.ofList value))

/-- What a word is by its looks. -/
def Word.ofString (word : String) : Word :=
  match word.toList with
  | ['-', '-'] => .separator
  | '-' :: '-' :: body => ofLong body
  | '-' :: letter :: attached => .short letter attached
  | _ => .plain

/-- The value attached to a short option. -/
def attachedValue : List Char → Option String
  | [] => none
  | '=' :: value => some (String.ofList value)
  | value => some (String.ofList value)

/-! ## Command lines -/

namespace Arguments

/-- Puts an option before the others. -/
def addOption (name : String) (value : Option String) (a : Arguments) : Arguments :=
  { a with options := (name, value) :: a.options }

/-- Puts an operand before the others. -/
def addOperand (word : String) (a : Arguments) : Arguments :=
  { a with operands := word :: a.operands }

/-- The option of a word and the value attached to it; `none` for a word of another sort. -/
def optionOf (forms : List OptionForm) : Word → Option (Option OptionForm × Option String)
  | .long name value => some (forms.find? (·.name = name), value)
  | .short letter attached => some (forms.find? (·.short = some letter), attachedValue attached)
  | _ => none

/-- Sorts the words of a command line. There is no result when an option is unknown, lacks its
value or has a value that it does not take. -/
def read? (forms : List OptionForm) : List String → Option Arguments
  | [] => some ⟨[], []⟩
  | word :: rest =>
    match Word.ofString word with
    | .separator => some ⟨[], rest⟩
    | .plain => (read? forms rest).map (addOperand word)
    | w =>
      match optionOf forms w with
      | some (some form, value) =>
        match form.takesValue, value with
        | false, none => (read? forms rest).map (addOption form.name none)
        | false, some _ => none
        | true, some value => (read? forms rest).map (addOption form.name (some value))
        | true, none =>
          match rest with
          | [] => none
          | value :: rest =>
            if Word.ofString value = .plain then
              (read? forms rest).map (addOption form.name (some value))
            else none
      | _ => none

/-- Whether no option is given twice. -/
def givesOnce (a : Arguments) : Bool :=
  (a.options.map Prod.fst).Nodup

/-- Whether an option is given. -/
def has (a : Arguments) (name : String) : Bool :=
  a.options.any (·.1 == name)

/-- The value of an option. -/
def value? (a : Arguments) (name : String) : Option String :=
  a.options.findSome? fun (n, value) => if n = name then value else none

end Arguments

end Markup.CommandLine
