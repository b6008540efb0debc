import ArmaGen.Proofs.Rule.Declares

/-!
# Headers of functions

Header and function write the result, the name and the parameters by rules of their own. They agree
on variables of plain datatypes (`declaredList_eq`, `announcedList_eq`), but not on everything
between these (`Rule.exists_header_eq`).
-/

namespace ArmaGen.Rule

open Edit

variable {p : Project} {id v func top funcs returns params : NodeId} {ids : List NodeId}
  {types : NodeId → Datatype} {emitter : Emitter}

/-- A variable has a datatype that is declared by its own name, and is emitted by its name. -/
structure Shown (p : Project) (v : NodeId) (type : Datatype) : Prop where
  typeOf : typeOf v p = .ok type p
  plain : type ∉ [.lambda, .struct, .structs, .string]
  str : (p.node v).str = (p.node v).name

lemma declaredType_eq {type : Datatype} (h : Shown p v type) :
    declaredType v p = .ok type.name p := by
  rw [declaredType, bind_ok h.typeOf]
  have hplain := h.plain
  cases type with
  | other type => cases type <;> first | rfl | simp at hplain
  | _ => rfl

/-- Variables with their datatypes, as they stand in the head of a function. -/
def typedNames (p : Project) (types : NodeId → Datatype) (mark : String) (ids : List NodeId) :
    List String :=
  ids.map fun v => (types v).name ++ mark ++ (p.node v).name

lemma declaredList_eq (h : ∀ v ∈ ids, Shown p v (types v)) (mark : String) :
    declaredList mark ids p = .ok (joinWith ", " (typedNames p types mark ids)) p := by
  refine bind_ok (mapM_eq fun v hv => ?_)
  refine bind_run (declaredType_eq (h v hv)) ?_
  rw [← (h v hv).str]
  rfl

lemma announcedList_eq (h : ∀ v ∈ ids, Shown p v (types v)) (mark : String) :
    announcedList mark ids p = .ok (typedNames p types mark ids) p :=
  mapM_eq fun v hv => bind_ok (h v hv).typeOf

/-- A header announces a function, whose results and parameters are shown. -/
structure Announces (p : Project) (id func returns params : NodeId)
    (types : NodeId → Datatype) : Prop where
  announced : ∃ top funcs, program id p = .ok top p ∧ child top 1 p = .ok funcs p ∧
    firstNamed? funcs (p.node id).name p = .ok (some func) p
  child_zero : ∃ declares, child func 0 p = .ok declares p
  child_one : child func 1 p = .ok returns p
  child_two : child func 2 p = .ok params p
  results : ∀ v ∈ (p.node returns).children, Shown p v (types v)
  params : ∀ v ∈ (p.node params).children, Shown p v (types v)

namespace Announces

variable (h : Announces p id func returns params types)
include h

/-- The header of a function with several results or none has a comma before the first of them. -/
lemma header_returns_eq (hrules : (p.node func).backend = .funcReturns) :
    header id emitter p = .ok (some (.text ("void " ++ (p.node func).name ++ "(" ++
      joinWith ", " (typedNames p types " " (p.node params).children) ++
      (if (p.node returns).children.isEmpty then "" else ", ") ++
      joinWith ", " (typedNames p types "& " (p.node returns).children) ++ ") ;"))) p := by
  obtain ⟨top, funcs, htop, hfuncs, hfunc⟩ := h.announced
  have hname : name id p = .ok (p.node id).name p := rfl
  have hchildren v : children v p = .ok (p.node v).children p := rfl
  have hbackend : backend func p = .ok .funcReturns p := ok_congr hrules
  rw [header, rule_bind_ok htop, rule_bind_ok hfuncs, rule_bind_ok hname, rule_bind_ok hfunc]
  refine rule_bind_run rfl ?_
  rw [rule_bind_ok hbackend, if_neg (by decide), if_pos (by decide), rule_bind_ok h.child_one,
    rule_bind_ok (hchildren _), rule_bind_ok h.child_two, rule_bind_ok (hchildren _),
    rule_bind_ok (announcedList_eq h.params " "), rule_bind_ok (announcedList_eq h.results "& ")]
  rfl

lemma header_return_eq {first : NodeId} (hrules : (p.node func).backend = .funcReturn)
    (hfirst : child returns 0 p = .ok first p) (hshown : Shown p first (types first)) :
    header id emitter p = .ok (some (.text ((types first).name ++ " " ++ (p.node func).name ++
      "(" ++ joinWith ", " (typedNames p types " " (p.node params).children) ++ ") ;"))) p := by
  obtain ⟨top, funcs, htop, hfuncs, hfunc⟩ := h.announced
  have hname : name id p = .ok (p.node id).name p := rfl
  have hchildren v : children v p = .ok (p.node v).children p := rfl
  have hbackend : backend func p = .ok .funcReturn p := ok_congr hrules
  rw [header, rule_bind_ok htop, rule_bind_ok hfuncs, rule_bind_ok hname, rule_bind_ok hfunc]
  refine rule_bind_run rfl ?_
  rw [rule_bind_ok hbackend, if_pos (by decide), rule_bind_ok h.child_one,
    rule_bind_ok hfirst, rule_bind_ok hshown.typeOf, rule_bind_ok h.child_two,
    rule_bind_ok (hchildren _), rule_bind_ok (announcedList_eq h.params " ")]
  rfl

lemma exists_returnsFunction_eq : ∃ body,
    returnsFunction func emitter p = .ok (some (.text (withBlock ("void %(name)s(%(2)s" ++
      (if (p.node returns).children.isEmpty || (p.node params).children.isEmpty then "" else ", ")
      ++ "%(1)s)") body))) p := by
  obtain ⟨declares, hdeclares⟩ := h.child_zero
  have hcount v : count v p = .ok (p.node v).children.length p := rfl
  rw [returnsFunction, rule_bind_ok hdeclares, rule_bind_ok (hcount _),
    rule_bind_ok h.child_one, rule_bind_ok (hcount _), rule_bind_ok h.child_two,
    rule_bind_ok (hcount _)]
  refine ⟨_, congrArg (fun sep => EStateM.Result.ok (some (Emission.text (withBlock
    ("void %(name)s(%(2)s" ++ sep ++ "%(1)s)") _))) p) ?_⟩
  cases (p.node returns).children <;> cases (p.node params).children <;> rfl

end Announces

/-- A function without parameters that takes its result `y` as a reference, and its header. -/
def sampleHeader : Project where
  nodes := #[{ kind := .project, children := [1] },
    { kind := .program, children := [2, 3, 8], parent := 0 }, { kind := .includes, parent := 1 },
    { kind := .funcs, children := [4], parent := 1 },
    { kind := .func, name := "f", backend := .funcReturns, children := [5, 6, 7], parent := 3 },
    { kind := .declares, parent := 4 }, { kind := .returns, children := [9], parent := 4 },
    { kind := .params, parent := 4 }, { kind := .header, name := "f", parent := 1 },
    { kind := .var, name := "y", str := "y", type := .int, parent := 6 }]

end ArmaGen.Rule
