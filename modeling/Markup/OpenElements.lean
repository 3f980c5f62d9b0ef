import Markup.Dtd.Basic

/-!
# Open elements

The elements whose end has not been seen form a stack. What the innermost one may contain, and the
inclusions and exclusions that hold inside all of them, are kept beside the stack, so that the
usual question, whether a start tag is admitted right here, needs no walk over the stack. Whether
it would be admitted after some elements were closed (`admitsIn`) is decided from the stack.
-/

namespace Markup

/-- The stack of open elements, with what is kept beside it. -/
structure OpenElements where
  /-- The open elements, innermost first. -/
  stack : List Element
  /-- The content type of the innermost element. -/
  content : ContentType
  /-- The inclusions of all open elements. -/
  inclusions : NameSet
  /-- The exclusions of all open elements. -/
  exclusions : NameSet
  deriving DecidableEq

namespace OpenElements

/-- No element is open; the document itself takes elements and text. -/
def none : OpenElements := ⟨[], .modelPcdata, .empty, .empty⟩

/-- The stack with all that is kept beside it worked out anew. -/
def ofStack (stack : List Element) : OpenElements where
  stack
  content := (stack.head?.map Element.content).getD .modelPcdata
  inclusions := stack.foldr (fun e names => names.union e.inclusions) .empty
  exclusions := stack.foldr (fun e names => names.union e.exclusions) .empty

/-- The stack with one more element, which adds its exceptions to those in force. -/
def push (s : OpenElements) (e : Element) : OpenElements where
  stack := e :: s.stack
  content := e.content
  inclusions := s.inclusions.union e.inclusions
  exclusions := s.exclusions.union e.exclusions

/-- The stack without its innermost element. -/
def pop (s : OpenElements) : OpenElements :=
  ofStack s.stack.tail

/-- The innermost open element. -/
def current? (s : OpenElements) : Option Element :=
  s.stack.head?

/-! ## Admission -/

/-- Whether the document admits an element outside all elements: the root element always, any
other one while the outermost open element is not the root. -/
def documentAdmits (d : Dtd) (stack : List Element) (e : Element) : Bool :=
  e.name == d.root || stack.getLast?.all (·.name != d.root)

/-- Whether an element is admitted inside `within` when the whole stack is `stack`. -/
def admitsIn (d : Dtd) (stack within : List Element) (e : Element) : Bool :=
  !within.any (·.excludes e.name) &&
    match within with
    | [] => documentAdmits d stack e
    | parent :: _ => parent.accepts e.name || within.any (·.includes e.name)

/-- Whether an element is admitted right here, decided from what is kept beside the stack. -/
def admits (d : Dtd) (s : OpenElements) (e : Element) : Bool :=
  !s.exclusions.has e.name &&
    match s.stack with
    | [] => documentAdmits d s.stack e
    | parent :: _ => parent.accepts e.name || s.inclusions.has e.name

/-- The least number of elements to close, at least one, after which an element is admitted. -/
def closingsFor? (d : Dtd) (s : OpenElements) (e : Element) : Option Nat :=
  ((List.range s.stack.length).map (· + 1)).find? fun n =>
    admitsIn d s.stack (s.stack.drop n) e

/-- The number of elements to close so that the innermost element of a name is closed. -/
def closingsThrough? (s : OpenElements) (name : Name) : Option Nat :=
  (s.stack.findIdx? (·.name == name)).map (· + 1)

end OpenElements

end Markup
