import Markup.Registry
import Markup.Text.Blank

/-!
# Names

Names of elements and attributes do not distinguish the case of ASCII letters, so they are kept in
upper case. A name written in a declaration also loses the blanks around it (`Name.declare`); a
name looked up is only put in upper case (`Name.fold`). A set of names is a registry of names.
-/

namespace Markup

/-- A text without ASCII small letters. -/
structure Name where
  /-- The text of the name. -/
  text : String
  /-- It is what something is in upper case. -/
  exists_toUpper : ∃ spelling : String, spelling.toUpper = text
  deriving DecidableEq

namespace Name

/-- The name that a text spells, in whatever case. -/
def fold (s : String) : Name := ⟨s.toUpper, s, rfl⟩

/-- The name that a declaration gives, with the blanks around it removed. -/
def declare (s : String) : Name := fold (Text.trim s)

instance : Inhabited Name := ⟨fold ""⟩

instance : Keyed Name := ⟨text⟩

/-- Names with the same text are the same. -/
@[ext] theorem ext {m n : Name} (h : m.text = n.text) : m = n := by
  cases m; cases n; cases h; rfl

@[simp] theorem text_fold (s : String) : (fold s).text = s.toUpper := rfl

end Name

/-- A set of names in ascending order. -/
abbrev NameSet := Registry Name

namespace NameSet

/-- The names declared by a list of texts; a blank text declares none. -/
def declare (texts : List String) : NameSet :=
  Registry.ofList ((texts.map Name.declare).filter (·.text ≠ ""))

/-- Whether a name belongs to the set. -/
def has (s : NameSet) (n : Name) : Bool :=
  s.contains n.text

/-- The set with the names of another added. -/
def union (s t : NameSet) : NameSet :=
  s.insertMany t.items

end NameSet

end Markup
