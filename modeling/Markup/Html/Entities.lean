import Markup.Dtd.Declaration

/-!
# The entities of HTML 3.2

An entity of HTML names one character: one of those that markup gives a meaning, or one of the
upper half of ISO 8859-1. Its replacement text refers to the character by number.
-/

namespace Markup.Html

/-- The characters that markup gives a meaning. -/
def markupEntities : List (String × Nat) := [("amp", 38), ("lt", 60), ("gt", 62), ("quot", 34)]

/-- The names of the characters from 160 to 255, in order. -/
def latinEntities : List String := [
  "nbsp", "iexcl", "cent", "pound", "curren", "yen", "brvbar", "sect",
  "uml", "copy", "ordf", "laquo", "not", "shy", "reg", "macr",
  "deg", "plusmn", "sup2", "sup3", "acute", "micro", "para", "middot",
  "cedil", "sup1", "ordm", "raquo", "frac14", "frac12", "frac34", "iquest",
  "Agrave", "Aacute", "Acirc", "Atilde", "Auml", "Aring", "AElig", "Ccedil",
  "Egrave", "Eacute", "Ecirc", "Euml", "Igrave", "Iacute", "Icirc", "Iuml",
  "ETH", "Ntilde", "Ograve", "Oacute", "Ocirc", "Otilde", "Ouml", "times",
  "Oslash", "Ugrave", "Uacute", "Ucirc", "Uuml", "Yacute", "THORN", "szlig",
  "agrave", "aacute", "acirc", "atilde", "auml", "aring", "aelig", "ccedil",
  "egrave", "eacute", "ecirc", "euml", "igrave", "iacute", "icirc", "iuml",
  "eth", "ntilde", "ograve", "oacute", "ocirc", "otilde", "ouml", "divide",
  "oslash", "ugrave", "uacute", "ucirc", "uuml", "yacute", "thorn", "yuml"]

/-- All entities of HTML 3.2. -/
def entities : List Entity :=
  markupEntities.map (fun (name, number) => .character name number) ++
    latinEntities.mapIdx fun i name => .character name (160 + i)

end Markup.Html
