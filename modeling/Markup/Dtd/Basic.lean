import Markup.Dtd.Declaration

/-!
# Document types

A document type names its root element and holds the declarations of elements and entities, the
last declaration of a name winning. `Dtd.validate` looks for names that are used without being
declared.
-/

namespace Markup

/-- A document type. -/
structure Dtd where
  /-- The name of the outermost element of a document. -/
  root : Name
  /-- The declared elements. -/
  elements : Registry Element
  /-- The declared entities. -/
  entities : Registry Entity
  deriving DecidableEq, Inhabited

namespace Dtd

/-- A document type without declarations. -/
def ofRoot (root : String) : Dtd :=
  ⟨.declare root, .empty, .empty⟩

/-- Declares an element, instead of the element of its name if there is one. -/
def addElement (d : Dtd) (e : Element) : Dtd :=
  { d with elements := d.elements.insert e }

/-- Declares an entity, instead of the entity of its name if there is one. -/
def addEntity (d : Dtd) (e : Entity) : Dtd :=
  { d with entities := d.entities.insert e }

/-- The declaration of an element. -/
def element? (d : Dtd) (name : Name) : Option Element :=
  d.elements.find? name.text

/-- The declaration of an entity. -/
def entity? (d : Dtd) (name : String) : Option Entity :=
  d.entities.find? name

/-- The declaration of the root element. -/
def rootElement? (d : Dtd) : Option Element :=
  d.element? d.root

/-- The length of the longest replacement text. -/
def longestReplacement (d : Dtd) : Nat :=
  d.entities.items.foldl (fun n e => max n e.replacement.length) 0

/-- No replacement text is longer than the longest one. -/
theorem length_le_longestReplacement {d : Dtd} {name : String} {e : Entity}
    (h : d.entity? name = some e) : e.replacement.length ≤ d.longestReplacement := by
  have hmem := (Registry.find?_eq_some h).1
  unfold longestReplacement
  generalize d.entities.items = es at hmem
  have grows : ∀ (es : List Entity) (n : Nat),
      n ≤ es.foldl (fun n e => max n e.replacement.length) n := by
    intro es
    induction es with
    | nil => simp
    | cons x xs ih => exact fun n => Nat.le_trans (Nat.le_max_left _ _) (ih _)
  generalize 0 = n
  induction es generalizing n with
  | nil => cases hmem
  | cons x xs ih =>
    rcases List.mem_cons.1 hmem with rfl | hmem
    · exact Nat.le_trans (Nat.le_max_right _ _) (grows xs _)
    · exact ih hmem _

/-! ## Validity -/

/-- A name that is used without being declared. -/
inductive Fault where
  /-- The root element has no declaration. -/
  | undefinedRoot (root : Name)
  /-- A declaration names an element that has none. -/
  | undefinedReference (element referenced : Name) (role : ReferenceRole)
  deriving DecidableEq

/-- The wording of a fault. -/
def Fault.message : Fault → String
  | .undefinedRoot root => "root element <" ++ root.text ++ "> is not defined"
  | .undefinedReference element referenced role =>
    "element <" ++ element.text ++ "> references undefined element <" ++ referenced.text ++
      "> in its " ++ role.name

/-- Whether an element of this name is declared. -/
def declares (d : Dtd) (name : Name) : Bool :=
  d.elements.contains name.text

/-- The references without a declaration, by element, role and name. -/
def danglingReferences (d : Dtd) : List Fault :=
  d.elements.items.flatMap fun e =>
    (e.references.filter fun (_, name) => !d.declares name).map fun (role, name) =>
      .undefinedReference e.name name role

/-- The first fault of a document type; the root comes before the references. -/
def validate (d : Dtd) : Except Fault Unit :=
  if d.declares d.root then
    match d.danglingReferences with
    | [] => .ok ()
    | fault :: _ => .error fault
  else .error (.undefinedRoot d.root)

end Dtd

end Markup
