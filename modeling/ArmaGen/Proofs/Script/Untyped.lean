import ArmaGen.Infer.Backend
import ArmaGen.Proofs.Project.Site
import ArmaGen.Proofs.Script.Syntax

/-!
# Nodes without a datatype

Nothing declares the names of a script without assignments, so that looking for the datatype of
one of its nodes finds none and changes nothing (`Edit.typeOf_eq`).
-/

namespace ArmaGen

namespace Project

variable {p : Project} {id : Nat}

/-- A node in a function that declares nothing and has no parameters. -/
structure Undeclared (id : Nat) (p : Project) : Prop where
  inside : ∃ f d q, p.Inside f d q id ∧ (p.node d).children = [] ∧ (p.node q).children = []
  declare? : (p.node id).declare? = none
  isField : (p.node id).kind.isField = false
  isRecord : (p.node id).backend.isRecord = false

/-- An undeclared node that has no datatype of its own. -/
structure Typeless (id : Nat) (p : Project) : Prop extends p.Undeclared id where
  type : (p.node id).type = .unknown

end Project

namespace Edit

variable {p : Project} {id f d q : Nat}

lemma declaresOf_eq (h : p.Inside f d q id) : declaresOf id p = .ok d p := by
  obtain ⟨r, more, hparts⟩ := h.parts
  exact bind_run (func_eq h.encloses) (child_natCast_eq (by rw [hparts]; rfl))

lemma paramsOf_eq (h : p.Inside f d q id) : paramsOf id p = .ok q p := by
  obtain ⟨r, more, hparts⟩ := h.parts
  exact bind_run (func_eq h.encloses) (child_natCast_eq (by rw [hparts]; rfl))

lemma hasChild_eq (id : Nat) (name : String) : hasChild id name p =
      .ok (((p.node id).children.map fun c => (p.node c).name).contains name) p :=
  rfl

lemma declaration_eq (h : p.Undeclared id) : declaration id p = .ok id p := by
  obtain ⟨f, d, q, hinside, hd, hq⟩ := h.inside
  have hvariable : variableDeclaration id p = .ok id p := by
    refine (bind_ok (declaresOf_eq hinside)).trans ?_
    refine bind_run (hasChild_eq d _) ?_
    rw [hd]
    refine bind_run (paramsOf_eq hinside) ?_
    refine bind_run (hasChild_eq q _) ?_
    rw [hq]
    rfl
  rw [declaration, node_bind, h.declare?]
  simp only [h.isField, h.isRecord]
  split
  · rfl
  · show (if ((p.node (p.node id).parent).kind == .struct) = true then _ else _ : Edit Nat) p = _
    split
    · rfl
    · exact hvariable

section

variable (h : p.Typeless id)

include h

lemma typeOf_eq : typeOf id p = .ok .unknown p := by
  rw [typeOf, node_bind, h.type]
  refine bind_run (declaration_eq h.toUndeclared) ?_
  show EStateM.Result.ok (p.node id).type p = _
  rw [h.type]

lemma isTyped_eq : isTyped id p = .ok false p :=
  bind_ok (typeOf_eq h)

lemma isNumeric_eq : isNumeric id p = .ok false p :=
  bind_ok (typeOf_eq h)

lemma shapeOf_eq : shapeOf id p = .ok none p :=
  bind_ok (typeOf_eq h)

lemma elementOf_eq : elementOf id p = .ok none p :=
  bind_ok (typeOf_eq h)

lemma hasElement_eq (element : Element) : hasElement id element p = .ok false p :=
  bind_ok (elementOf_eq h)

end

lemma childTypes_eq (h : ∀ c ∈ (p.node id).children, p.Typeless c) :
    childTypes id p = .ok (List.replicate (p.node id).children.length .unknown) p := by
  have := mapM_eq fun c hc => typeOf_eq (h c hc)
  rwa [List.map_const'] at this

end Edit

end ArmaGen
