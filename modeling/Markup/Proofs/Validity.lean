import Markup.Dtd.Basic
import Markup.Proofs.Admission
import Mathlib.Data.List.Induction

/-!
# Valid document types

A document type is built by declarations, the last one of a name counting (`Stands`). Validation
finds a name that is used without being declared exactly if there is one. Which one it finds first
is settled by the declarations that stand: the root comes before all references, and of the
references without a declaration the least one is found, by element, role and name
(`validate_ofDeclarations`).
-/

namespace Markup

/-! ## References in order -/

namespace ReferenceRole

/-- The place of a role among the roles. -/
def rank : ReferenceRole → Nat
  | model => 0
  | inclusions => 1
  | exclusions => 2

end ReferenceRole

/-- The names that a declaration uses in a role. -/
def Element.namesIn (e : Element) : ReferenceRole → NameSet
  | .model => e.model
  | .inclusions => e.inclusions
  | .exclusions => e.exclusions

/-- A name that the declaration of an element uses. -/
structure Reference where
  /-- The name of the element. -/
  element : Name
  /-- The part of the declaration. -/
  role : ReferenceRole
  /-- The name that is used there. -/
  name : Name

namespace Reference

/-- The fault of a reference to an element without a declaration. -/
def fault (r : Reference) : Dtd.Fault :=
  .undefinedReference r.element r.name r.role

/-- References are in order by element, then by role, then by name. -/
def Before (r s : Reference) : Prop :=
  r.element.text < s.element.text ∨ r.element = s.element ∧
    (r.role.rank < s.role.rank ∨ r.role = s.role ∧ r.name.text < s.name.text)

/-- Every reference has a fault of its own. -/
theorem fault_injective : Function.Injective fault := by
  rintro ⟨element, role, name⟩ ⟨element', role', name'⟩ h
  cases h
  rfl

/-- Of two references only one comes before the other. -/
theorem Before.asymm {r s : Reference} (h : r.Before s) : ¬s.Before r := by
  rintro (helement' | ⟨helement', hrest'⟩)
  · rcases h with helement | ⟨helement, -⟩
    · exact String.lt_asymm helement helement'
    · rw [helement] at helement'
      exact String.lt_irrefl _ helement'
  · rcases h with helement | ⟨-, hrest⟩
    · rw [helement'] at helement
      exact String.lt_irrefl _ helement
    · rcases hrest with hrole | ⟨hrole, hname⟩ <;> rcases hrest' with hrole' | ⟨hrole', hname'⟩
      · omega
      · rw [hrole'] at hrole
        exact Nat.lt_irrefl _ hrole
      · rw [hrole] at hrole'
        exact Nat.lt_irrefl _ hrole'
      · exact String.lt_asymm hname hname'

end Reference

/-- The first of items in order is the least one. -/
theorem head?_eq_some_iff_of_pairwise {α : Type} {R : α → α → Prop} {xs : List α} {x : α}
    (h : xs.Pairwise R) (hR : ∀ {a b}, R a b → ¬R b a) :
    xs.head? = some x ↔ x ∈ xs ∧ ∀ y ∈ xs, y = x ∨ R x y := by
  cases xs with
  | nil => simp
  | cons a xs =>
    obtain ⟨hfirst, -⟩ := List.pairwise_cons.1 h
    rw [List.head?_cons, Option.some_inj]
    constructor
    · rintro rfl
      exact ⟨List.mem_cons_self, fun y hy => (List.mem_cons.1 hy).imp_right (hfirst y)⟩
    · rintro ⟨hmem, hleast⟩
      rcases List.mem_cons.1 hmem with rfl | hmem
      · rfl
      · exact (hleast a List.mem_cons_self).resolve_right (hR (hfirst x hmem))

/-! ## Declarations that stand -/

/-- A declaration of a document type. -/
inductive Declaration where
  /-- Declares an element. -/
  | element (e : Element)
  /-- Declares an entity. -/
  | entity (e : Entity)

/-- A declaration of an element stands if no later one has its name. -/
def Stands (ds : List Declaration) (e : Element) : Prop :=
  ∃ before after, ds = before ++ .element e :: after ∧
    ∀ later, .element later ∈ after → later.name ≠ e.name

/-- Some declaration of the element of a name stands. -/
def IsDeclared (ds : List Declaration) (name : Name) : Prop :=
  ∃ e, Stands ds e ∧ e.name = name

/-- A declaration that stands uses a name of which no declaration stands. -/
structure Dangling (ds : List Declaration) (r : Reference) : Prop where
  /-- The name is used. -/
  used : ∃ e, Stands ds e ∧ e.name = r.element ∧ (e.namesIn r.role).has r.name = true
  /-- It is not declared. -/
  undeclared : ¬IsDeclared ds r.name

/-- An element stands after one more declaration if that declares it, or if it stood before and its
name is not declared again. -/
theorem stands_concat {ds : List Declaration} {last : Declaration} {e : Element} :
    Stands (ds ++ [last]) e ↔
      last = .element e ∨ Stands ds e ∧ ∀ later, last = .element later → later.name ≠ e.name := by
  constructor
  · rintro ⟨before, after, hds, hlast⟩
    rcases List.eq_nil_or_concat after with rfl | ⟨after, x, rfl⟩
    · exact .inl (List.append_inj_right' hds rfl |> List.singleton_inj.1)
    · rw [List.concat_eq_append, ← List.cons_append, ← List.append_assoc] at hds
      obtain ⟨rfl, hx⟩ := List.append_inj' hds rfl
      obtain rfl := List.singleton_inj.1 hx
      have hafter {later : Element} (h : .element later ∈ after ++ [last]) : later.name ≠ e.name :=
        hlast later (List.concat_eq_append ▸ h)
      refine .inr ⟨⟨before, after, rfl, fun later h => hafter ?_⟩, fun later h => hafter ?_⟩
      · exact List.mem_append_left _ h
      · exact List.mem_append_right _ (List.mem_singleton.2 h.symm)
  · rintro (rfl | ⟨⟨before, after, rfl, hafter⟩, hlast⟩)
    · exact ⟨ds, [], rfl, fun _ h => absurd h List.not_mem_nil⟩
    · refine ⟨before, after ++ [last], by simp, fun later h => ?_⟩
      rcases List.mem_append.1 h with h | h
      · exact hafter later h
      · exact hlast later (List.mem_singleton.1 h).symm

namespace Dtd

/-- The document type with a declaration added. -/
def declare (d : Dtd) : Declaration → Dtd
  | .element e => d.addElement e
  | .entity e => d.addEntity e

/-- The document type that declarations build. -/
def ofDeclarations (root : String) (ds : List Declaration) : Dtd :=
  ds.foldl declare (.ofRoot root)

/-- Declarations do not change the root. -/
theorem root_ofDeclarations (root : String) (ds : List Declaration) :
    (ofDeclarations root ds).root = .declare root := by
  unfold ofDeclarations
  induction ds using List.reverseRecOn with
  | nil => rfl
  | append_singleton ds last ih =>
    rw [List.foldl_append]
    cases last <;> exact ih

/-- A document type holds the declarations of elements that stand. -/
theorem mem_elements_ofDeclarations (root : String) {ds : List Declaration} {e : Element} :
    e ∈ (ofDeclarations root ds).elements.items ↔ Stands ds e := by
  unfold ofDeclarations
  induction ds using List.reverseRecOn with
  | nil =>
    refine iff_of_false List.not_mem_nil ?_
    rintro ⟨before, after, h, -⟩
    exact absurd h.symm (List.append_ne_nil_of_right_ne_nil _ (List.cons_ne_nil _ _))
  | append_singleton ds last ih =>
    rw [List.foldl_append, stands_concat, ← ih]
    cases last with
    | element x =>
      have hkey : Keyed.key x ≠ Keyed.key e ↔ x.name ≠ e.name :=
        not_congr ⟨Name.ext, congrArg Name.text⟩
      show e ∈ (Registry.insert _ x).items ↔ _
      rw [Registry.mem_items_insert, hkey]
      simp
    | entity x =>
      show e ∈ (ds.foldl declare (.ofRoot root)).elements.items ↔ _
      simp

/-- The names that are declared are those of the elements. -/
theorem declares_iff {d : Dtd} {name : Name} :
    d.declares name = true ↔ ∃ e ∈ d.elements.items, e.name = name := by
  rw [declares, Registry.contains, Option.isSome_iff_exists]
  constructor
  · rintro ⟨e, he⟩
    obtain ⟨hmem, hkey⟩ := Registry.find?_eq_some he
    exact ⟨e, hmem, Name.ext hkey⟩
  · rintro ⟨e, hmem, rfl⟩
    exact ⟨e, Registry.find?_of_mem hmem⟩

/-- A name is declared if one of the declarations is of an element of that name. -/
theorem declares_ofDeclarations (root : String) {ds : List Declaration} {name : Name} :
    (ofDeclarations root ds).declares name = true ↔ IsDeclared ds name := by
  rw [declares_iff]
  exact exists_congr fun e => and_congr_left' (mem_elements_ofDeclarations root)

/-! ## The faults of a document type -/

/-- The references without a declaration, in order. -/
def dangling (d : Dtd) : List Reference :=
  d.elements.items.flatMap fun e =>
    (e.references.filter fun (_, name) => !d.declares name).map fun (role, name) =>
      ⟨e.name, role, name⟩

/-- The faults that a check finds are those of the dangling references, in order. -/
theorem danglingReferences_eq (d : Dtd) :
    d.danglingReferences = d.dangling.map Reference.fault := by
  rw [danglingReferences, dangling, List.map_flatMap]
  simp only [List.map_map]
  rfl

end Dtd

/-- The references of a declaration are in order. -/
theorem Element.pairwise_references (e : Element) :
    e.references.Pairwise fun r s =>
      r.1.rank < s.1.rank ∨ r.1 = s.1 ∧ r.2.text < s.2.text := by
  have hsame (role : ReferenceRole) (names : NameSet) :
      (names.items.map (role, ·)).Pairwise fun r s =>
        r.1.rank < s.1.rank ∨ r.1 = s.1 ∧ r.2.text < s.2.text :=
    List.pairwise_map.2 (names.sorted.imp fun hname => .inr ⟨rfl, hname⟩)
  have hother {role role' : ReferenceRole} (hrank : role.rank < role'.rank)
      (names names' : NameSet) :
      ∀ r ∈ names.items.map (role, ·), ∀ s ∈ names'.items.map (role', ·),
        r.1.rank < s.1.rank ∨ r.1 = s.1 ∧ r.2.text < s.2.text := by
    intro r hr s hs
    obtain ⟨_, -, rfl⟩ := List.mem_map.1 hr
    obtain ⟨_, -, rfl⟩ := List.mem_map.1 hs
    exact .inl hrank
  refine List.pairwise_append.2 ⟨List.pairwise_append.2 ⟨hsame _ _, hsame _ _, ?_⟩, hsame _ _, ?_⟩
  · exact hother (by decide) _ _
  · intro r hr
    rcases List.mem_append.1 hr with hr | hr
    · exact hother (by decide) _ _ r hr
    · exact hother (by decide) _ _ r hr

/-- The references of an element are the names in its sets. -/
theorem Element.mem_references {e : Element} {role : ReferenceRole} {name : Name} :
    (role, name) ∈ e.references ↔ (e.namesIn role).has name = true := by
  rw [← NameSet.contains_items, List.contains_iff_mem]
  cases role <;> simp [references, namesIn]

namespace Dtd

/-- Dangling references are listed in order, none twice. -/
theorem pairwise_dangling (d : Dtd) : d.dangling.Pairwise Reference.Before := by
  refine List.pairwise_flatMap.2 ⟨fun e _ => ?_, d.elements.sorted.imp fun hname r hr s hs => ?_⟩
  · refine List.pairwise_map.2 ((e.pairwise_references.filter _).imp fun hrole => ?_)
    exact .inr ⟨rfl, hrole⟩
  · obtain ⟨_, -, rfl⟩ := List.mem_map.1 hr
    obtain ⟨_, -, rfl⟩ := List.mem_map.1 hs
    exact .inl hname

/-- The references that are found dangling are those that dangle by the declarations. -/
theorem mem_dangling_ofDeclarations (root : String) {ds : List Declaration} {r : Reference} :
    r ∈ (ofDeclarations root ds).dangling ↔ Dangling ds r := by
  have hdeclares : (!(ofDeclarations root ds).declares r.name) = true ↔ ¬IsDeclared ds r.name := by
    rw [Bool.not_eq_true', ← Bool.not_eq_true, declares_ofDeclarations]
  constructor
  · intro h
    obtain ⟨e, he, h⟩ := List.mem_flatMap.1 h
    obtain ⟨⟨role, name⟩, hmem, rfl⟩ := List.mem_map.1 h
    obtain ⟨hreference, hname⟩ := List.mem_filter.1 hmem
    exact ⟨⟨e, (mem_elements_ofDeclarations root).1 he, rfl, Element.mem_references.1 hreference⟩,
      hdeclares.1 hname⟩
  · rintro ⟨⟨e, he, hname, hused⟩, hundeclared⟩
    refine List.mem_flatMap.2 ⟨e, (mem_elements_ofDeclarations root).2 he, ?_⟩
    refine List.mem_map.2 ⟨(r.role, r.name), List.mem_filter.2 ⟨?_, hdeclares.2 hundeclared⟩, ?_⟩
    · exact Element.mem_references.2 hused
    · rw [hname]

/-- Nothing dangles if every element that stands names declared elements only. -/
theorem dangling_ofDeclarations_eq_nil_iff (root : String) {ds : List Declaration} :
    (ofDeclarations root ds).dangling = [] ↔
      ∀ e, Stands ds e → ∀ role name, (e.namesIn role).has name = true → IsDeclared ds name := by
  rw [List.eq_nil_iff_forall_not_mem]
  constructor
  · intro h e he role name hname
    by_contra hundeclared
    exact h ⟨e.name, role, name⟩
      ((mem_dangling_ofDeclarations root).2 ⟨⟨e, he, rfl, hname⟩, hundeclared⟩)
  · intro h r hr
    obtain ⟨⟨e, he, -, hname⟩, hundeclared⟩ := (mem_dangling_ofDeclarations root).1 hr
    exact hundeclared (h e he r.role r.name hname)

/-- The first fault is that of the root, or else that of the first reference. -/
theorem validate_eq (d : Dtd) :
    d.validate =
      if d.declares d.root then d.dangling.head?.elim (.ok ()) fun r => .error r.fault
      else .error (.undefinedRoot d.root) := by
  rw [validate, danglingReferences_eq]
  cases d.dangling <;> rfl

/-- A declaration is valid if its root is declared and nothing dangles. -/
theorem validate_eq_ok_iff (d : Dtd) :
    d.validate = .ok () ↔ d.declares d.root = true ∧ d.dangling = [] := by
  rw [validate_eq]
  cases d.declares d.root with
  | false => exact iff_of_false nofun nofun
  | true => cases d.dangling <;> simp

/-- The root is reported if it is not declared. -/
theorem validate_eq_undefinedRoot_iff (d : Dtd) (name : Name) :
    d.validate = .error (.undefinedRoot name) ↔ name = d.root ∧ d.declares d.root = false := by
  rw [validate_eq]
  cases d.declares d.root with
  | false => simp [eq_comm]
  | true => cases d.dangling <;> simp [Reference.fault]

/-- A dangling reference is reported if it is the first and the root is declared. -/
theorem validate_eq_fault_iff (d : Dtd) (r : Reference) :
    d.validate = .error r.fault ↔ d.declares d.root = true ∧ d.dangling.head? = some r := by
  rw [validate_eq]
  cases d.declares d.root with
  | false => simp [Reference.fault]
  | true => cases d.dangling <;> simp [Reference.fault_injective.eq_iff]

/-- Document types with the same root and the same elements have the same fault. -/
theorem validate_congr {d d' : Dtd} (hroot : d.root = d'.root) (h : d.elements = d'.elements) :
    d.validate = d'.validate := by
  cases d
  cases d'
  cases hroot
  cases h
  rfl

/-- Validation is exact, and what it finds depends on the root and on the declarations that stand
alone. -/
theorem validate_ofDeclarations (root : String) (ds : List Declaration) :
    ((ofDeclarations root ds).validate = .ok () ↔
        IsDeclared ds (.declare root) ∧
          ∀ e, Stands ds e → ∀ role name, (e.namesIn role).has name = true →
            IsDeclared ds name) ∧
      (∀ name, (ofDeclarations root ds).validate = .error (.undefinedRoot name) ↔
        name = .declare root ∧ ¬IsDeclared ds (.declare root)) ∧
      (∀ r : Reference, (ofDeclarations root ds).validate =
          .error (.undefinedReference r.element r.name r.role) ↔
        IsDeclared ds (.declare root) ∧ Dangling ds r ∧
          ∀ s, Dangling ds s → s = r ∨ r.Before s) ∧
      ∀ root' ds', Name.declare root' = .declare root → (∀ e, Stands ds' e ↔ Stands ds e) →
        (ofDeclarations root' ds').validate = (ofDeclarations root ds).validate := by
  have hroot : (ofDeclarations root ds).declares (ofDeclarations root ds).root = true ↔
      IsDeclared ds (.declare root) := by
    rw [root_ofDeclarations, declares_ofDeclarations]
  refine ⟨?_, fun name => ?_, fun r => ?_, fun root' ds' hroot' h => ?_⟩
  · rw [validate_eq_ok_iff, hroot, dangling_ofDeclarations_eq_nil_iff]
  · rw [validate_eq_undefinedRoot_iff, root_ofDeclarations, ← Bool.not_eq_true,
      declares_ofDeclarations]
  · refine (validate_eq_fault_iff _ r).trans ?_
    rw [hroot, head?_eq_some_iff_of_pairwise (pairwise_dangling _) Reference.Before.asymm]
    simp only [mem_dangling_ofDeclarations]
  · refine validate_congr (by rw [root_ofDeclarations, root_ofDeclarations, hroot'])
      (Registry.ext_items fun e => ?_)
    rw [mem_elements_ofDeclarations, mem_elements_ofDeclarations, h]

/-- A declaration of `MEMO` that another one replaces. -/
def draft : Element :=
  (Element.ofName "MEMO" .pcdata).withInclusions ["0"]

/-- A declaration of `MEMO` that uses three names without a declaration. -/
def memo : Element :=
  ((Element.ofName "MEMO" .model).withModel ["TO", "BODY"]).withExclusions ["0"]

/-- A memo that is declared again, and one among other declarations: its body is missing in both. -/
theorem validate_ofDeclarations_memo :
    (Name.declare " MEMO" = .declare "MEMO" ∧
        ∀ e, Stands [.element memo, .entity ⟨"sig", "MEMO"⟩] e ↔
          Stands [.element draft, .element memo] e) ∧
      (ofDeclarations " MEMO" [.element memo, .entity ⟨"sig", "MEMO"⟩]).validate =
        (ofDeclarations "MEMO" [.element draft, .element memo]).validate ∧
      Dangling [.element draft, .element memo] ⟨.fold "MEMO", .model, .fold "BODY"⟩ ∧
      ∀ s, Dangling [.element draft, .element memo] s →
        s = ⟨.fold "MEMO", .model, .fold "BODY"⟩ ∨
          Reference.Before ⟨.fold "MEMO", .model, .fold "BODY"⟩ s := by
  have hroot : Name.declare " MEMO" = .declare "MEMO" := by decide +kernel
  have hstands (e : Element) : Stands [.element memo, .entity ⟨"sig", "MEMO"⟩] e ↔
      Stands [.element draft, .element memo] e := by
    have helements : (ofDeclarations "MEMO" [.element memo, .entity ⟨"sig", "MEMO"⟩]).elements =
        (ofDeclarations "MEMO" [.element draft, .element memo]).elements := by
      decide +kernel
    rw [← mem_elements_ofDeclarations "MEMO", helements, mem_elements_ofDeclarations]
  obtain ⟨-, -, hfirst, hsame⟩ :=
    validate_ofDeclarations "MEMO" [.element draft, .element memo]
  have hfound : (ofDeclarations "MEMO" [.element draft, .element memo]).validate =
      .error (.undefinedReference (.fold "MEMO") (.fold "BODY") .model) := by
    decide +kernel
  obtain ⟨-, hdangling⟩ := (hfirst ⟨.fold "MEMO", .model, .fold "BODY"⟩).1 hfound
  exact ⟨⟨hroot, hstands⟩, hsame " MEMO" _ hroot hstands, hdangling⟩

end Dtd

end Markup
