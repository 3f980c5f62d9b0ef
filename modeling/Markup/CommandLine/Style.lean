/-!
# Terminal styles

A style is switched on before a text and off after it by an escape sequence of the terminal, which
names the style by number.
-/

namespace Markup.CommandLine

/-- How a text looks on the terminal. -/
inductive Style where
  /-- As it is. -/
  | plain
  /-- In bold type. -/
  | bold
  /-- In a faint colour. -/
  | dimmed
  /-- In green. -/
  | green
  /-- In yellow. -/
  | yellow
  /-- In blue. -/
  | blue
  /-- In magenta. -/
  | magenta
  /-- In cyan. -/
  | cyan
  deriving DecidableEq, Repr

namespace Style

/-- The escape sequence of a number. -/
def sequence (number : Nat) : String :=
  "\x1b[" ++ toString number ++ "m"

/-- The numbers that switch a style on and off: a colour ends with the default colour, bold and
faint type end with all styles. -/
def numbers? : Style → Option (Nat × Nat)
  | plain => none
  | bold => some (1, 0)
  | dimmed => some (2, 0)
  | green => some (32, 39)
  | yellow => some (33, 39)
  | blue => some (34, 39)
  | magenta => some (35, 39)
  | cyan => some (36, 39)

/-- A text in a style. -/
def paint (style : Style) (text : String) : String :=
  match style.numbers? with
  | none => text
  | some (on, off) => sequence on ++ text ++ sequence off

end Style

end Markup.CommandLine
