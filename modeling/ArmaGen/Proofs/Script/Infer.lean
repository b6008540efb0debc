import ArmaGen.Infer.Configure
import ArmaGen.Proofs.Script.Load

/-!
# Inferring nothing

A pass over the nodes of a bare program chooses the rules that emit them and suggests nothing, so
that inferring datatypes ends with the first pass (`Edit.exists_configure_eq`).
-/

namespace ArmaGen

open List

open Project

/-! ### Complete outlines -/

/-- The least number of nodes below a node of a kind in bare programs. -/
def Kind.arity : Kind → Nat
  | .main => 4
  | .statement | .paren | .neg | .not | .transpose | .ctranspose => 1
  | .exp | .elexp | .mul | .minus | .elmul | .matrixDivision | .elementDivision
  | .leftMatrixDivision | .leftElementDivision | .plus | .gt | .ge | .lt | .le | .ne | .eq | .band
  | .bor | .land | .lor => 2
  | _ => 0

/-- An outline in which every node has enough nodes below it. -/
inductive Outline.Full : Outline → Prop where
  | node {kind : Kind} {name value : String} {below : List Outline}
      (harity : kind.arity ≤ below.length) (h : ∀ o ∈ below, Full o) :
      Full (.node kind name value below)

lemma Term.outlines_eq_map (ts : List Term) : outlines ts = ts.map outline := by
  induction ts with
  | nil => rfl
  | cons t ts ih => rw [outlines, ih, map_cons]

lemma Term.Layered.full_outline {sp : Spacing} {t : Term} (h : t.Layered sp) : t.outline.Full := by
  induction h with
  | name | numeral => exact .node (Nat.zero_le _) nofun
  | call _ _ ih =>
    refine .node (Nat.zero_le _) fun o ho => ?_
    rw [outlines_eq_map] at ho
    obtain ⟨u, hu, rfl⟩ := mem_map.mp ho
    exact ih u hu
  | paren _ ih | neg _ _ ih | not _ _ ih | transpose _ _ ih | ctranspose _ _ ih =>
    refine .node .refl fun o ho => ?_
    rwa [mem_singleton.mp ho]
  | @chain op first others hne _ _ _ _ ihf iho =>
    rw [outline, outlines_eq_map]
    refine .node ?_ fun o ho => ?_
    · have hpos := length_pos_iff.mpr hne
      rw [length_cons, length_map]
      exact Nat.le_trans (show op.kind.arity ≤ 2 by cases op <;> decide) (by omega)
    · rcases mem_cons.mp ho with rfl | ho
      · exact ihf
      · obtain ⟨u, hu, rfl⟩ := mem_map.mp ho
        exact iho u hu

lemma Script.full_outline {sp : Spacing} {ts : List Term} (hts : ∀ t ∈ ts, IsLine sp t) :
    ∀ o ∈ outline ts, o.Full := by
  intro o ho
  unfold outline at ho
  split at ho
  · cases ho
  · rw [mem_singleton.mp ho]
    refine .node .refl fun o ho => ?_
    simp at ho
    rcases ho with rfl | rfl | rfl | rfl
    iterate 3 · exact .node (Nat.zero_le _) nofun
    · refine .node (Nat.zero_le _) fun o ho => ?_
      obtain ⟨t, ht, rfl⟩ := mem_map.mp ho
      refine .node .refl fun o ho => ?_
      rw [mem_singleton.mp ho]
      exact (hts t ht).layered.full_outline

def Node.chosen (node : Node) : Node :=
  { node with backend := node.kind.bareRules }

namespace Project

variable {p p' : Project} {text : String} {id j : Nat} {f : Node → Node}

/-- Every node of a project has enough nodes below it. -/
def Complete (p : Project) : Prop :=
  ∀ id, p.Below 0 id → (p.node id).kind.arity ≤ (p.node id).children.length

lemma Bare.complete (h : p.Bare text) (hfuncs : (p.outline 3).Full) : p.Complete := by
  have hsize := h.eight_le
  have hpart : ∀ id ∈ [2, 3, 4, 5, 6, 7], (p.outline id).Full := by
    intro id hid
    simp at hid
    have hlt : id < p.size := by omega
    by_cases heq : id = 3
    · exact heq ▸ hfuncs
    · have hbelow : (p.node id).children = [] := by
        rw [h.children id hlt (by omega)]
        obtain rfl | rfl | rfl | rfl | rfl : id = 2 ∨ id = 4 ∨ id = 5 ∨ id = 6 ∨ id = 7 := by omega
        all_goals rfl
      have hkind : (p.node id).kind.arity = 0 := by
        obtain rfl | rfl | rfl | rfl | rfl : id = 2 ∨ id = 4 ∨ id = 5 ∨ id = 6 ∨ id = 7 := by omega
        all_goals rw [(h.frame _ hlt _ _ rfl).1]; rfl
      rw [h.outline_eq hlt, hbelow]
      exact .node (Nat.le_of_eq hkind) nofun
  have hprogram : (p.outline 1).Full := by
    rw [h.outline_eq (by omega), h.children 1 (by omega) (by decide)]
    refine .node (by rw [h.kind_program]; exact Nat.zero_le _) fun o ho => ?_
    obtain ⟨id, hid, rfl⟩ := mem_map.mp ho
    exact hpart id hid
  have hroot : (p.outline 0).Full := by
    rw [h.outline_eq (by omega), h.children 0 (by omega) (by decide)]
    refine .node (by rw [h.kind_root]; exact Nat.zero_le _) fun o ho => ?_
    rw [mem_singleton.mp ho]
    exact hprogram
  have hfull : ∀ id, p.Below 0 id → (p.outline id).Full := by
    intro id hbelow
    induction hbelow with
    | self => exact hroot
    | @child id c hbelow hc ih =>
      rw [h.outline_eq (h.lt_of_below (by omega) hbelow).2] at ih
      cases ih with
      | node _ hall => exact hall _ (mem_map_of_mem hc)
  intro id hbelow
  have := hfull id hbelow
  rw [h.outline_eq (h.lt_of_below (by omega) hbelow).2] at this
  cases this with
  | node harity _ => rwa [length_map] at harity

lemma Bare.above_part (h : p.Bare text) (hid : id < p.size)
    (hkind : (p.node id).kind = .declares ∨ (p.node id).kind = .returns ∨
      (p.node id).kind = .params) : p.above id = 8 ∧ 12 < p.size := by
  have hlow : 9 ≤ id := by
    rcases hkind with hkind | hkind | hkind <;> exact h.le_of_kind hid hkind (by decide)
  have hhigh : id < 12 := by
    rcases hkind with hkind | hkind | hkind <;> exact h.lt_of_kind hid (by rw [hkind]; rfl)
  have hsize := h.twelve_lt (by omega)
  obtain rfl | rfl | rfl : id = 9 ∨ id = 10 ∨ id = 11 := by omega
  all_goals exact ⟨(h.frame _ hid _ 8 rfl).2, hsize⟩

/-! ### Projects with the rules of nodes chosen -/

lemma node_eq_getElem (h : id < p.nodes.size) : p.node id = p.nodes[id] := by
  rw [node, Array.getD_eq_getD_getElem?, Array.getElem?_eq_getElem h]
  rfl

lemma update_congr {g : Node → Node} (h : f (p.node id) = g (p.node id)) :
    p.update id f = p.update id g := by
  have hnodes : p.nodes.modify id f = p.nodes.modify id g := by
    refine Array.ext (by simp) fun i hi hi' => ?_
    rw [Array.getElem_modify, Array.getElem_modify]
    split
    next heq =>
      subst heq
      rwa [node_eq_getElem (by simpa using hi)] at h
    next => rfl
  unfold update
  rw [hnodes]

lemma update_eq_self (h : f (p.node id) = p.node id) : p.update id f = p := by
  have hid : p.nodes.modify id (fun node => node) = p.nodes := by
    refine Array.ext (by simp) fun i hi hi' => ?_
    rw [Array.getElem_modify, ite_id]
  rw [update_congr h (g := fun node => node), update, hid]

/-- Chooses the rules of some nodes. -/
def choose (p : Project) : List Nat → Project
  | [] => p
  | id :: ids => choose (p.update id Node.chosen) ids

lemma size_choose (ids : List Nat) : (p.choose ids).size = p.size := by
  induction ids generalizing p with
  | nil => rfl
  | cons id ids ih => rw [choose, ih, size_update]

lemma node_choose {ids : List Nat} (hj : j < p.size) :
    (p.choose ids).node j = if j ∈ ids then (p.node j).chosen else p.node j := by
  induction ids generalizing p with
  | nil => rfl
  | cons id ids ih =>
    rw [choose, ih (by rwa [size_update])]
    by_cases heq : j = id
    · subst heq
      rw [node_update_self hj, if_pos (mem_cons_self ..)]
      exact ite_id _
    · rw [node_update_of_ne heq]
      simp [heq]

lemma core_choose (ids : List Nat) : ((p.choose ids).node j).core = (p.node j).core := by
  induction ids generalizing p with
  | nil => rfl
  | cons id ids ih =>
    rw [choose, ih]
    exact apply_node_update fun _ => rfl

lemma rest_choose (ids : List Nat) :
    ({ p.choose ids with nodes := #[] } : Project) = { p with nodes := #[] } := by
  induction ids generalizing p with
  | nil => rfl
  | cons id _ ih => exact ih

lemma Bare.choose (h : p.Bare text) (ids : List Nat) : (p.choose ids).Bare text := by
  refine h.congr (size_choose ids) (fun _ => core_choose ids) fun id hid => ?_
  rw [node_choose hid]
  split
  · exact .inr rfl
  · exact (h.node id hid).backend

lemma Below.congr {top : Nat} (h : p.Below top id)
    (hchildren : ∀ id, (p'.node id).children = (p.node id).children) : p'.Below top id := by
  induction h with
  | self => exact .self
  | @child mid c _ hc ih => exact ih.child (hchildren mid ▸ hc)

lemma children_choose (ids : List Nat) : ((p.choose ids).node j).children = (p.node j).children :=
  (congrArg Node.children (core_choose ids) :)

lemma Complete.choose (h : p.Complete) (ids : List Nat) : (p.choose ids).Complete := by
  intro id hbelow
  have hkind : ((p.choose ids).node id).kind = (p.node id).kind :=
    (congrArg Node.kind (core_choose ids) :)
  rw [hkind, children_choose]
  exact h id (hbelow.congr fun _ => (children_choose ids).symm)

lemma choose_choose {ids more : List Nat} (hsub : ∀ id ∈ more, id ∈ ids)
    (hlt : ∀ id ∈ more, id < p.size) : (p.choose ids).choose more = p.choose ids := by
  induction more with
  | nil => rfl
  | cons id more ih =>
    have hself : (p.choose ids).update id Node.chosen = p.choose ids := by
      refine update_eq_self ?_
      rw [node_choose (hlt id (.head _)), if_pos (hsub id (.head _))]
      rfl
    rw [choose, hself]
    exact ih (fun j hj => hsub j (.tail _ hj)) fun j hj =>
      hlt j (.tail _ hj)

lemma outline_congr (hsize : p'.size = p.size)
    (hcore : ∀ id, (p'.node id).core = (p.node id).core) : p'.outline id = p.outline id := by
  have hsteps : ∀ n id, p'.outlineSteps n id = p.outlineSteps n id := by
    intro n
    induction n with
    | zero => exact fun _ => rfl
    | succ n ih =>
      intro id
      have hkind : (p'.node id).kind = (p.node id).kind := (congrArg Node.kind (hcore id) :)
      have hname : (p'.node id).name = (p.node id).name := (congrArg Node.name (hcore id) :)
      have hvalue : (p'.node id).value = (p.node id).value := (congrArg Node.value (hcore id) :)
      have hchildren : (p'.node id).children = (p.node id).children :=
        (congrArg Node.children (hcore id) :)
      rw [outlineSteps, outlineSteps, hkind, hname, hvalue, hchildren, funext ih]
  rw [outline, outline, hsize, hsteps]

/-- A bare project with the rules of its nodes chosen. -/
structure Configured (text : String) (p : Project) : Prop extends p.Bare text where
  complete : p.Complete
  chosen : ∀ id, p.Below 0 id → (p.node id).backend = (p.node id).kind.bareRules

end Project

namespace Edit

variable {p : Project} {text : String} {id : Nat} {configure : NodeId → Edit Unit}

/-! ### Rules that find nothing -/

lemma reservedCallRule?_eq_none {name : String} (h : isUnknownName name = true) :
    reservedCallRule? name = none := by
  unfold reservedCallRule?
  split <;> first | rfl | exact absurd h (by decide)

lemma reservedRule?_eq_none {node : Node} (h : node.Bare) :
    reservedRule? node.kind node.name = none := by
  unfold reservedRule?
  split
  next hkind => exact reservedCallRule?_eq_none (h.name (by rw [hkind]; rfl))
  iterate 3 next hkind hname => exact absurd (h.name (by rw [hkind]; rfl)) (by rw [hname]; decide)
  iterate 3 next hkind _ => exact absurd h.kind (by rw [hkind]; decide)
  next => rfl

lemma commonStrict_replicate (n : Nat) :
    Datatype.commonStrict (replicate (n + 1) .unknown) = .ok .unknown := by
  have hdups : (replicate (n + 1) Datatype.unknown).eraseDups = [.unknown] := by
    rw [replicate_succ, eraseDups_cons]
    have : (replicate n Datatype.unknown).filter (fun b => !b == Datatype.unknown) = [] := by
      rw [filter_eq_nil_iff]
      intro b hb
      rw [(mem_replicate.mp hb).2]
      decide
    rw [this]
    rfl
  unfold Datatype.commonStrict
  rw [hdups]
  rfl

section

variable (h : p.Bare text)

include h

lemma child_program_eq {i c : Nat} (hc : [2, 3, 4, 5, 6, 7][i]? = some c) : child 1 i p = .ok c p :=
  child_natCast_eq (by rw [h.children 1 h.size (by decide)]; exact hc)

section

variable (hpos : 0 < id) (hid : id < p.size)

include hpos hid

lemma funcsOf_eq : funcsOf id p = .ok 3 p :=
  bind_run (program_eq h.toSited hpos hid) (child_program_eq h rfl)

lemma structsOf_eq : structsOf id p = .ok 5 p :=
  bind_run (program_eq h.toSited hpos hid) (child_program_eq h rfl)

omit hpos hid in
lemma hasChild_funcs_eq {name : String} (hname : name ≠ "main") :
    hasChild 3 name p = .ok false p := by
  have hsize := h.eight_le
  rw [hasChild_eq, h.children 3 (by omega) (by decide), Script.below]
  split
  · rfl
  next hne =>
    have hmain := h.name_main (Nat.lt_of_le_of_ne hsize (Ne.symm hne))
    simp [hmain, hname]

lemma calledFunction_eq
    (hname : isUnknownName (p.node id).name = true) : calledFunction id p = .ok none p := by
  have hmain : (p.node id).name ≠ "main" := by
    rw [isUnknownName, Bool.and_eq_true, bne_iff_ne] at hname
    exact hname.2
  have hlambda : "_" ++ (p.node id).name ≠ "main" := by
    intro heq
    have := congrArg String.toList heq
    rw [String.toList_append] at this
    cases this
  have hroot : (p.node 0).children = [1] := h.children 0 (by omega) (by decide)
  refine bind_run rfl ?_
  refine bind_run (funcsOf_eq h hpos hid) ?_
  refine bind_run (hasChild_funcs_eq h hlambda) ?_
  refine bind_run (hasChild_funcs_eq h hmain) ?_
  refine bind_run (program_eq h.toSited hpos hid) ?_
  have hprograms : children root p = .ok [1] p := ok_congr hroot
  refine bind_run hprograms ?_
  rfl

lemma inferAsCall_eq
    (hname : isUnknownName (p.node id).name = true) : inferAsCall id p = .ok false p :=
  bind_ok (calledFunction_eq h hpos hid hname)

lemma isTarget_eq (whole : Bool) : isTarget id whole p = .ok false p := by
  have hlt := h.above_lt id hid hpos
  have hkind : (p.node (p.above id)).kind ≠ .assign := by
    intro heq
    have := (h.node (p.above id) (by omega)).kind
    rw [heq] at this
    cases this
  show (if ((p.node (p.above id)).kind != .assign) = true then _ else _ : Edit Bool) p = _
  rw [if_pos (bne_iff_ne.mpr hkind)]
  rfl

end

end

lemma adoptDeclared_eq (h : p.Typeless id) : adoptDeclared id p = .ok () p :=
  bind_run (declaration_eq h.toUndeclared) (bind_ok (isTyped_eq h))

lemma update_eq {f : Node → Node} (hf : f (p.node id) = p.node id) : update id f p = .ok () p :=
  congrArg (EStateM.Result.ok ()) (update_eq_self hf)

lemma setType_unknown_eq (h : (p.node id).Bare) : setType id .unknown p = .ok () p := by
  refine update_eq ?_
  show ({ p.node id with pointer := 0, type := .unknown }) = p.node id
  rw [← h.pointer, ← h.type]

lemma inferOperator_eq (h : (p.node id).Bare)
    (hbelow : ∀ c ∈ (p.node id).children, p.Typeless c) : inferOperator id p = .ok () p := by
  refine bind_run (childTypes_eq hbelow) ?_
  unfold setCommonType
  cases (p.node id).children.length with
  | zero => exact setType_unknown_eq h
  | succ n =>
    rw [commonStrict_replicate]
    refine update_eq ?_
    rw [← h.type]

section

variable (h : p.Bare text) (hmain : 8 ≤ id) (hid : id < p.size)
  (hname : isUnknownName (p.node id).name = true)

include h hmain hid hname

lemma inferVar_eq : inferVar id p = .ok () p := by
  have hpos : 0 < id := by omega
  refine bind_run (inferAsCall_eq h hpos hid hname) ?_
  refine bind_run (isTarget_eq h hpos hid false) ?_
  exact adoptDeclared_eq (h.typeless hmain hid)

lemma inferGet_eq : inferGet id p = .ok () p := by
  have hpos : 0 < id := by omega
  have hless := h.typeless hmain hid
  have hindexed : inferIndexed id p = .ok false p :=
    bind_run (declaration_eq hless.toUndeclared) (bind_ok (shapeOf_eq hless))
  refine bind_run (inferAsCall_eq h hpos hid hname) ?_
  refine bind_run hindexed ?_
  refine bind_run (isTarget_eq h hpos hid false) ?_
  exact adoptDeclared_eq hless

end

lemma exists_operand_eq (hne : 1 ≤ (p.node id).children.length)
    (hbelow : ∀ c ∈ (p.node id).children, p.Typeless c) :
    ∃ c : Nat, child id 0 p = .ok c p ∧ p.Typeless c := by
  obtain ⟨c, hc⟩ : ∃ c, (p.node id).children[0]? = some c :=
    ⟨_, getElem?_eq_getElem hne⟩
  exact ⟨c, child_natCast_eq hc, hbelow c (mem_of_getElem? hc)⟩

variable {kind : Kind} {rule : NodeId → Edit Unit}

lemma datatypeRule?_cases (hkind : kind.isBare = true)
    (h : datatypeRule? configure kind = some rule) :
    kind = .var ∧ rule = inferVar ∨ kind = .get ∧ rule = inferGet ∨
      1 ≤ kind.arity ∧ rule = inferTranspose ∨ 1 ≤ kind.arity ∧ rule = inferNeg ∨
      rule = inferOperator ∨ rule = inferMinus ∨ rule = inferFraction := by
  cases kind <;> first | exact absurd hkind (by decide) | cases h
  all_goals simp [Kind.arity]

/-- No datatype follows for a node of a bare program. -/
lemma datatypeRule_eq (h : p.Bare text) (hc : p.Complete) (hbelow : p.Below 0 id)
    (hrule : datatypeRule? configure (p.node id).kind = some rule) : rule id p = .ok () p := by
  have hid := (h.lt_of_below h.pos hbelow).2
  have hnode := h.node id hid
  have harity := hc id hbelow
  have hmain : 8 ≤ id := by
    have hnone : ∀ part ∈ Script.frame.take 8, datatypeRule? configure part.1 = none := by
      simp [Script.frame, datatypeRule?]
    refine h.le_of_kind hid rfl ⟨by decide, fun part hpart heq => ?_⟩
    rw [← heq, hnone part hpart] at hrule
    cases hrule
  have hless := h.typeless hmain hid
  have hoperands : ∀ c ∈ (p.node id).children, p.Typeless c := by
    intro c hc
    have := h.child_lt id hid c hc
    exact h.typeless (by omega) this.2
  rcases datatypeRule?_cases hnode.kind hrule with ⟨hkind, rfl⟩ | ⟨hkind, rfl⟩ | ⟨hone, rfl⟩ |
    ⟨hone, rfl⟩ | rfl | rfl | rfl
  · exact inferVar_eq h hmain hid (hnode.name (by rw [hkind]; rfl))
  · exact inferGet_eq h hmain hid (hnode.name (by rw [hkind]; rfl))
  · obtain ⟨c, hchild, hless⟩ := exists_operand_eq (Nat.le_trans hone harity) hoperands
    refine bind_run hchild (bind_run (typeOf_eq hless) ?_)
    refine bind_run (setType_unknown_eq hnode) ?_
    exact bind_ok (isNumeric_eq hless)
  · obtain ⟨c, hchild, hless⟩ := exists_operand_eq (Nat.le_trans hone harity) hoperands
    refine bind_run hchild (bind_run (typeOf_eq hless) ?_)
    refine bind_run (setType_unknown_eq hnode) ?_
    exact bind_ok (hasElement_eq hless .uword)
  · exact inferOperator_eq hnode hoperands
  · refine bind_run (inferOperator_eq hnode hoperands) ?_
    exact bind_ok (hasElement_eq hless .uword)
  · refine bind_run (inferOperator_eq hnode hoperands) ?_
    exact bind_ok (isNumeric_eq hless)

/-! ### One pass -/

lemma kind_of_rules?_eq_none (hbare : kind.isBare = true) (h : kind.rules? = none) :
    (kind = .var ∨ kind = .get) ∨ kind = .declares ∨ kind = .returns ∨ kind = .params := by
  cases kind <;> first | exact absurd hbare (by decide) | cases h
  all_goals simp

lemma choosePart_eq (h : p.Bare text) (hup : p.above id = 8) (hsize : 12 < p.size)
    (returns : Nat) : choosePart id returns p = setBackend id .funcReturn p := by
  have hparent : (p.node id).parent = 8 := hup
  show setBackend id (functionRules (p.node (p.node id).parent).name
    ((p.node returns).children.length == 1 || (p.node (p.node id).parent).kind == .main)) p = _
  rw [hparent, h.name_main (by omega), (h.frame 8 (by omega) .main 3 rfl).1]
  simp only [BEq.rfl, Bool.or_true]
  have hmain : functionRules "main" true = .funcReturn := by simp [functionRules]
  rw [hmain]

lemma chooseRules_eq (h : p.Bare text) (hid : id < p.size)
    (hbackend : (p.node id).backend = .unknown) :
    chooseRules id p = .ok () (p.update id Node.chosen) := by
  have hset : ∀ rules, (p.node id).kind.bareRules = rules →
      setBackend id rules p = .ok () (p.update id Node.chosen) := by
    rintro _ rfl
    exact congrArg (EStateM.Result.ok ()) (update_congr rfl)
  unfold chooseRules
  rw [node_bind]
  cases hrules : (p.node id).kind.rules? with
  | some rules => exact hset rules (by unfold Kind.bareRules; rw [hrules]; rfl)
  | none =>
    rcases kind_of_rules?_eq_none (h.node id hid).kind hrules with hkind | hkind
    · have hmain : 8 ≤ id := by
        rcases hkind with hkind | hkind <;> exact h.le_of_kind hid hkind (by decide)
      have hself : p.update id Node.chosen = p := by
        refine update_eq_self ?_
        have hnone : (p.node id).kind.bareRules = .unknown := by
          rcases hkind with hkind | hkind <;> rw [hkind] <;> rfl
        rw [Node.chosen, hnone, ← hbackend]
      have hrun := (bind_ok (typeOf_eq (h.typeless hmain hid)) : chooseByType id p = _)
      rw [hself]
      rcases hkind with hkind | hkind <;> rw [hkind] <;> exact hrun
    · obtain ⟨hup, hsize⟩ := h.above_part hid hkind
      have hreturns : child (p.node id).parent 1 p = .ok 10 p := by
        rw [show (p.node id).parent = 8 from hup]
        exact child_natCast_eq (by rw [h.children 8 (by omega) (by decide)]; rfl)
      rcases hkind with hkind | hkind | hkind <;> rw [hkind]
      · exact (bind_ok hreturns).trans
          ((choosePart_eq h hup hsize 10).trans (hset _ (by rw [hkind]; rfl)))
      · exact (choosePart_eq h hup hsize id).trans (hset _ (by rw [hkind]; rfl))
      · exact (bind_ok hreturns).trans
          ((choosePart_eq h hup hsize 10).trans (hset _ (by rw [hkind]; rfl)))

lemma inferNode_eq (h : p.Bare text) (hc : p.Complete) (hbelow : p.Below 0 id) :
    inferNode configure id p = .ok () (p.update id Node.chosen) := by
  have hid := (h.lt_of_below h.pos hbelow).2
  have hnode := h.node id hid
  have hrest : (do if (← backend id) == .unknown then chooseRules id : Edit Unit) p =
      .ok () (p.update id Node.chosen) := by
    show (if ((p.node id).backend == .unknown) = true then chooseRules id else pure ()) p = _
    split
    next heq => exact chooseRules_eq h hid (beq_iff_eq.mp heq)
    next hne =>
      rcases hnode.backend with heq | heq
      · rw [heq] at hne
        exact absurd rfl hne
      · rw [update_eq_self (by rw [Node.chosen, ← heq])]
        rfl
  unfold inferNode
  rw [node_bind, reservedRule?_eq_none hnode]
  show (node id >>= _) p = _
  rw [node_bind, hnode.type]
  cases hrule : datatypeRule? configure (p.node id).kind with
  | none => exact hrest
  | some rule => exact bind_run (datatypeRule_eq h hc hbelow hrule) hrest

lemma inferNodes_eq (h : p.Bare text) (hc : p.Complete) {ids : List Nat}
    (hids : ∀ id ∈ ids, p.Below 0 id) : inferNodes configure ids p = .ok () (p.choose ids) := by
  induction ids generalizing p with
  | nil => rfl
  | cons id ids ih =>
    refine bind_run (inferNode_eq h hc (hids id (.head _))) ?_
    refine ih (h.choose [id]) (hc.choose [id]) fun j hj => ?_
    exact (hids j (.tail _ hj)).congr fun _ => children_choose [id]

/-! ### Until nothing is suggested -/

section

variable (h : p.Bare text)

include h

lemma suggestions_eq : suggestions 1 p = .ok (if p.size = 8 then [] else [("main", [])]) p := by
  have hsize := h.eight_le
  have hstructs : children 5 p = .ok [] p :=
    ok_congr (h.children 5 (by omega) (by decide))
  have hfuncs : children 3 p = .ok (if p.size = 8 then [] else [8]) p :=
    ok_congr (h.children 3 (by omega) (by decide))
  have htable : functionSuggestions [] (if p.size = 8 then [] else [8]) p =
      .ok (if p.size = 8 then [] else [("main", [])]) p := by
    split
    · rfl
    next hne =>
      have hlt := h.twelve_lt hne
      have hparts := h.children 8 (by omega) (by decide)
      have hvariables : functionVariables 8 p = .ok [] p := by
        refine bind_run (child_natCast_eq (by rw [hparts]; rfl)) ?_
        refine bind_run (child_natCast_eq (by rw [hparts]; rfl)) ?_
        exact ok_congr (show (p.node 9).children ++ (p.node 11).children = _
          by rw [h.children 9 (by omega) (by decide), h.children 11 (by omega) (by decide)]; rfl)
      refine bind_run hvariables ?_
      show EStateM.Result.ok (Table.put (p.node 8).name [] []) p = _
      rw [h.name_main (by omega)]
      rfl
  refine bind_run (funcsOf_eq h Nat.one_pos h.size) ?_
  refine bind_run (structsOf_eq h Nat.one_pos h.size) ?_
  refine bind_run hfuncs (bind_run htable ?_)
  exact bind_run hstructs rfl

lemma adoptSuggestions_eq : adoptSuggestions [1] p = .ok true p := by
  have hsize := h.eight_le
  refine bind_run (suggestions_eq h) ?_
  have hstructs : setStructTypes 1 (if p.size = 8 then [] else [("main", [])]) p = .ok () p := by
    refine bind_run (structsOf_eq h Nat.one_pos h.size) ?_
    split
    · rfl
    · refine bind_run (hasChild_eq 5 "main") ?_
      rw [h.children 5 (by omega) (by decide)]
      rfl
  have hfuncs : setFunctionTypes 1 (if p.size = 8 then [] else [("main", [])]) p = .ok () p := by
    refine bind_run (funcsOf_eq h Nat.one_pos h.size) ?_
    split
    · rfl
    next hne =>
      have hbelow : (p.node 3).children = [8] := by
        rw [h.children 3 (by omega) (by decide), Script.below, if_neg hne]
      have hnames : (p.node 3).children.map (fun c => (p.node c).name) = ["main"] := by
        rw [hbelow, map_singleton, h.name_main (by omega)]
      have hparts : children 8 p = .ok [9, 10, 11, 12] p :=
        ok_congr (h.children 8 (by omega) (by decide))
      have hnamed : childNamed 3 "main" p = .ok 8 p := by
        unfold childNamed
        rw [names_bind, show p.namesBelow 3 = _ from hnames]
        exact child_natCast_eq (by rw [hbelow]; rfl)
      refine bind_run (hasChild_eq 3 "main") ?_
      rw [hnames]
      refine bind_run hnamed ?_
      exact bind_run hparts rfl
  refine bind_run hstructs (bind_run hfuncs ?_)
  split <;> rfl

lemma inferPasses_eq (hc : p.Complete) {ids : List Nat}
    (hids : ∀ id ∈ ids, p.Below 0 id) (suggest : Bool) (n : Nat) :
    inferPasses configure suggest ids (n + 1) p = .ok () (p.choose ids) := by
  have hchosen := h.choose ids
  refine bind_run (inferNodes_eq h hc hids) ?_
  have hroot : children root (p.choose ids) = .ok [1] (p.choose ids) :=
    ok_congr (hchosen.children 0 hchosen.pos (by decide))
  cases suggest with
  | false => rfl
  | true =>
    refine bind_run hroot ?_
    exact bind_run (adoptSuggestions_eq hchosen) rfl

lemma clearLogs_eq : clearLogs [1] p = .ok () p := by
  have hsize := h.eight_le
  have hlog : child 1 (-1) p = .ok 7 p := by
    unfold child
    rw [node_bind, h.children 1 (by omega) (by decide)]
    rfl
  have hempty : setChildren 7 [] p = .ok () p := by
    have hnone : (p.node 7).children = [] := h.children 7 (by omega) (by decide)
    refine update_eq ?_
    rw [← hnone]
  exact bind_run hlog (bind_run hempty rfl)

lemma inferBelow_eq (hc : p.Complete) (suggest : Bool) :
    inferBelow configure suggest root p = .ok () (p.choose (p.postorder true 0)) := by
  have hids : ∀ id ∈ p.postorder true 0, p.Below 0 id := fun _ =>
    below_of_mem_postorderSteps
  have hchosen := h.choose (p.postorder true 0)
  have hroot : children root (p.choose (p.postorder true 0)) = .ok [1] _ :=
    ok_congr (hchosen.children 0 hchosen.pos (by decide))
  refine (bind_ok (inferPasses_eq h hc hids suggest (p.size + 99))).trans ?_
  exact bind_run hroot (clearLogs_eq hchosen)

lemma configureSteps_eq (hc : p.Complete) (suggest : Bool) (n : Nat) :
    configureSteps (n + 1) suggest root p = .ok () (p.choose (p.postorder true 0)) := by
  refine bind_run (inferBelow_eq h hc suggest) ?_
  refine (inferBelow_eq (h.choose _) (hc.choose _) suggest).trans ?_
  -- the second round goes over the same nodes
  have hbelow : ∀ id ∈ (p.choose (p.postorder true 0)).postorder true 0, p.Below 0 id :=
    fun id hid => (below_of_mem_postorderSteps hid).congr fun _ =>
      (children_choose _).symm
  rw [choose_choose]
  · exact fun id hid => h.mem_postorderSteps h.pos (Nat.le_succ _) (hbelow id hid)
  · exact fun id hid => (h.lt_of_below h.pos (hbelow id hid)).2

/-- Configuring a bare project chooses the rules of its nodes and finds nothing else. -/
lemma exists_configure_eq (hc : p.Complete) (hfirst : p.configured = false)
    (suggest : Bool) : ∃ q, Edit.configure suggest p = .ok () q ∧ q.Configured text ∧
      q.configured = true ∧ q.outline 3 = p.outline 3 ∧ q.options = p.options ∧
      q.depth = p.depth := by
  let p1 : Project := { p with configured := true }
  have hbare : p1.Bare text := h.of_nodes_eq rfl
  have hcomplete : p1.Complete := fun id hbelow => hc id (hbelow.congr fun _ => rfl)
  have hrest := rest_choose (p := p1) (p1.postorder true 0)
  refine ⟨p1.choose (p1.postorder true 0), ?_, ⟨hbare.choose _, hcomplete.choose _, ?_⟩,
    (congrArg configured hrest :), ?_, (congrArg options hrest :),
    (congrArg depth hrest :)⟩
  · show (if p.configured = true then _ else _ : Edit Unit) p = _
    rw [hfirst]
    exact configureSteps_eq hbare hcomplete suggest p1.size
  · intro id hbelow
    have hbelow1 : p1.Below 0 id := hbelow.congr fun _ => (children_choose _).symm
    have hmem : id ∈ p1.postorder true 0 :=
      hbare.mem_postorderSteps hbare.pos (Nat.le_succ _) hbelow1
    rw [node_choose (hbare.lt_of_below hbare.pos hbelow1).2, if_pos hmem]
    rfl
  · exact outline_congr (size_choose _) fun _ => core_choose _

end

end Edit

end ArmaGen
