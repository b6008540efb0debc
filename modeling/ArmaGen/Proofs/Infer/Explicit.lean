import ArmaGen.Proofs.Infer.Passes
import ArmaGen.Proofs.Project.Tidy
import Mathlib.Tactic.MkIffOfInductiveProp

/-!
# Explicit datatypes win

A rule of inference writes the datatype of the node it is for and of no other (`Edit.tidy_rule`),
but for the rules for calls, for copies of records and for anonymous functions, which write to
declarations, and rules for reserved names. Where none of these run, a pass leaves every datatype
that was known (`Edit.type_eq_of_inferNodes`), and so does all of the inference without suggestions
(`Edit.type_eq_of_configureSteps`).
-/

namespace ArmaGen

namespace Edit

open Project

variable {α : Type} {opened : NodeId → Bool → Prop} {p q : Project} {id j : NodeId} {m : Edit α}

/-- Nodes keep the datatypes and rules that are not open, their places and their names. -/
lemma Tidy.kept (h : Tidy opened m) {a : α} (hrun : m p = .ok a q) (j : NodeId) :
    (¬ opened j true → (q.node j).type = (p.node j).type) ∧
      (¬ opened j false → (q.node j).caption = (p.node j).caption) := by
  induction h generalizing p q with
  | pure => cases hrun; exact ⟨fun _ => rfl, fun _ => rfl⟩
  | throw => cases hrun
  | getBind _ _ ih => exact ih p hrun
  | nodeBind _ _ ih => exact ih _ hrun
  | @update id f _ hkeeps htype hbackend =>
    cases hrun
    refine ⟨fun hj => ?_, fun hj => ?_⟩
    · rcases htype with hid | hsame
      · exact congrArg Node.type (node_update_of_ne fun hne => hj (hne ▸ hid))
      · exact apply_node_update hsame
    · rcases hbackend with hid | hsame
      · exact congrArg Node.caption (node_update_of_ne fun hne => hj (hne ▸ hid))
      · refine apply_node_update fun node => ?_
        obtain ⟨hsite, hname⟩ := hkeeps node
        have hkind : (f node).kind = node.kind := congrArg (·.1) hsite
        have hparent : (f node).parent = node.parent := congrArg (·.2.1) hsite
        rw [Node.caption, hkind, hparent, hname, hsame]
        rfl
  | make _ hall => exact ⟨fun hj => absurd (hall j _) hj, fun hj => absurd (hall j _) hj⟩
  | bind _ _ ihm ihf =>
    obtain ⟨a, r, hr, hq⟩ := exists_of_bind_ok hrun
    obtain ⟨htype, hrules⟩ := ihf a hq
    obtain ⟨htype', hrules'⟩ := ihm hr
    exact ⟨fun hj => (htype hj).trans (htype' hj), fun hj => (hrules hj).trans (hrules' hj)⟩

lemma tidy_lift (x : Except Failure α) : Tidy opened (liftM x : Edit α) := by
  cases x with
  | ok a => exact .pure a
  | error failure => exact .throw failure

lemma tidy_mapM {f : NodeId → Edit α} (hf : ∀ id, Tidy opened (f id)) (ids : List NodeId) :
    Tidy opened (ids.mapM f) := by
  induction ids with
  | nil => exact .pure _
  | cons id ids ih =>
    rw [List.mapM_cons]
    exact (hf id).bind fun _ => ih.bind fun _ => .pure _

lemma tidy_backend : Tidy opened (backend id) :=
  .nodeBind (fun _ => .pure _) fun _ => rfl

lemma tidy_count : Tidy opened (count id) :=
  .nodeBind (fun _ => .pure _) fun _ => rfl

lemma tidy_groupSteps (n : Nat) : Tidy opened (groupSteps n id) := by
  induction n generalizing id with
  | zero => exact .throw _
  | succ n ih =>
    refine .nodeBind (fun node => ?_) fun _ => rfl
    split
    · exact .pure _
    · refine tidy_parent.bind fun _ => tidy_kind.bind fun _ => ?_
      extract_lets finish
      have hfinish : ∀ group, Tidy opened (finish group) := fun _ =>
        .bind (.amend fun _ => rfl)
          fun _ => .pure _
      exact .ite (hfinish _) (ih.bind hfinish)

lemma tidy_group : Tidy opened (group id) :=
  tidy_height.bind fun _ => tidy_groupSteps _

/-! ### Reading -/

lemma tidy_shapeOf : Tidy opened (shapeOf id) :=
  tidy_typeOf.bind fun _ => tidy_lift _

lemma tidy_elementOf : Tidy opened (elementOf id) :=
  tidy_typeOf.bind fun _ => tidy_lift _

lemma tidy_isNumeric : Tidy opened (isNumeric id) :=
  tidy_typeOf.bind fun _ => tidy_lift _

lemma tidy_isTyped : Tidy opened (isTyped id) :=
  tidy_typeOf.bind fun _ => .pure _

lemma tidy_hasElement {element : Element} : Tidy opened (hasElement id element) :=
  tidy_elementOf.bind fun _ => .pure _

lemma tidy_isTarget (whole : Bool) : Tidy opened (isTarget id whole) :=
  tidy_parent.bind fun _ => tidy_kind.bind fun _ => .ite (.pure _) <| .ite (.pure _) <|
    (tidy_child _).bind fun _ => .pure _

lemma tidy_childTypes : Tidy opened (childTypes id) :=
  tidy_children.bind fun _ => tidy_mapM (fun _ => tidy_typeOf) _

lemma tidy_childShapes : Tidy opened (childShapes id) :=
  tidy_children.bind fun _ => (tidy_mapM (fun _ => tidy_shapeOf) _).bind fun _ => .pure _

lemma tidy_axisLength (axis : Nat) : Tidy opened (axisLength id axis) := by
  unfold axisLength
  split
  · exact Tidy.bind (tidy_shapeOf.bind fun _ => .pure _) fun _ => .pure _
  all_goals exact .pure _

lemma tidy_literalLessOne (node : Node) : Tidy opened (literalLessOne node) := by
  unfold literalLessOne
  repeat' split
  all_goals first | exact .pure _ | exact .throw _

lemma tidy_typedArgument (shown : String) : Tidy opened (typedArgument id shown) := by
  refine .nodeBind (fun node => tidy_elementOf.bind fun _ => tidy_shapeOf.bind fun _ => ?_)
    fun _ => rfl
  split
  · exact (tidy_literalLessOne node).bind fun _ => .pure _
  all_goals first | exact .pure _ | exact .throw _

lemma tidy_indexArgument (axis : Nat) : Tidy opened (indexArgument id axis) :=
  tidy_kind.bind fun _ => .ite (tidy_parent.bind fun _ => tidy_name.bind fun _ =>
    (tidy_axisLength axis).bind fun _ => .pure _) <| tidy_isTyped.bind fun _ => .ite (.pure _) <|
    tidy_typedArgument _

/-! ### Writing -/

lemma tidy_suggest (suggestion : Suggestion) : Tidy opened (suggest id suggestion) :=
  .ite (.pure _) <| tidy_declaration.bind fun _ =>
    .amend fun _ => rfl

lemma tidy_suggestAssigned (assign : NodeId) : Tidy opened (suggestAssigned id assign) :=
  (tidy_child _).bind fun _ => tidy_typeOf.bind fun _ => tidy_declaration.bind fun _ =>
    tidy_suggest _

lemma tidy_setBackend (h : opened id false) (rules : RuleSet) : Tidy opened (setBackend id rules) :=
  .update (fun _ => rfl) (fun _ => ⟨rfl, rfl⟩) (.inr fun _ => rfl) (.inl h)

lemma tidy_chooseByType (h : opened id false) : Tidy opened (chooseByType id) := by
  refine tidy_typeOf.bind fun _ => ?_
  split
  · exact .pure _
  · exact tidy_setBackend h _

lemma tidy_chooseRules (h : opened id false) : Tidy opened (chooseRules id) := by
  have hpart : ∀ returns, Tidy opened (choosePart id returns) := fun _ =>
    tidy_parent.bind fun _ => tidy_count.bind fun _ => tidy_kind.bind fun _ =>
      tidy_name.bind fun _ => tidy_setBackend h _
  refine .nodeBind (fun node => ?_) fun _ => rfl
  repeat' first
    | exact .pure _
    | exact tidy_setBackend h _
    | exact hpart _
    | exact tidy_chooseByType h
    | exact tidy_child _
    | exact tidy_childNamed
    | exact tidy_declaresOf
    | exact tidy_children
    | exact tidy_count
    | exact tidy_backend
    | refine .bind ?_ fun _ => ?_
    | split

lemma tidy_setValue (value : String) : Tidy opened (setValue id value) :=
  .amend fun _ => rfl

section Writes

variable (h : opened id true)

include h

lemma tidy_write {type : Datatype} : Tidy opened (update id fun node => { node with type }) :=
  .update (fun _ => rfl) (fun _ => ⟨rfl, rfl⟩) (.inl h) (.inr fun _ => rfl)

lemma tidy_setCommonType (types : List Datatype) : Tidy opened (setCommonType id types) :=
  .ite (tidy_setType h _) <| (tidy_lift _).bind fun _ =>
    tidy_write h

lemma tidy_setShape (shape : Shape) : Tidy opened (setShape id shape) := by
  refine tidy_elementOf.bind fun _ => (tidy_lift _).bind fun _ => ?_
  split
  · exact tidy_write h
  · exact .throw _

lemma tidy_setElement (element : Element) : Tidy opened (setElement id element) := by
  refine tidy_shapeOf.bind fun _ => ?_
  split
  · exact (tidy_lift _).bind fun _ => tidy_write h
  · exact .throw _

lemma tidy_adoptDeclared : Tidy opened (adoptDeclared id) :=
  tidy_declaration.bind fun _ => tidy_isTyped.bind fun _ => .ite
    (tidy_declaration.bind fun _ => tidy_typeOf.bind fun _ => tidy_setType h _) (.pure _)

lemma tidy_indexSingle (index : NodeId) : Tidy opened (indexSingle id index) :=
  (tidy_indexArgument 0).bind fun _ => .ite (tidy_setShape h _) (.pure _)

lemma tidy_indexPair (first second : NodeId) : Tidy opened (indexPair id first second) :=
  (tidy_indexArgument 0).bind fun _ => (tidy_indexArgument 1).bind fun _ =>
    .ite (.pure _) (tidy_setShape h _)

lemma tidy_indexedBy {shape : Shape} {index : NodeId → Edit Unit}
    (hindex : indexedBy shape = some index) : Tidy opened (index id) := by
  have hone : ∀ {other index}, Tidy opened (isOne other >>= fun one =>
      if one then indexSingle id index else pure ()) := fun {_ _} =>
    Tidy.bind (.nodeBind (fun _ => .pure _) fun _ => rfl) fun _ =>
      .ite (tidy_indexSingle h _) (.pure _)
  cases shape <;> cases hindex <;> refine tidy_children.bind fun ids => ?_ <;> split
  any_goals first | exact .pure _ | exact tidy_indexSingle h _ | exact tidy_indexPair h _ _ |
    exact hone
  exact (tidy_indexArgument 0).bind fun _ => (tidy_indexArgument 1).bind fun _ =>
    (tidy_indexArgument 2).bind fun _ => .ite (.pure _) (tidy_setShape h _)

/-! ### Rules -/

lemma tidy_inferVector : Tidy opened (inferVector id) := by
  refine tidy_childTypes.bind fun _ => (tidy_setCommonType h _).bind fun _ =>
    tidy_childShapes.bind fun shapes => tidy_children.bind fun elements => ?_
  dsimp only
  repeat' first
    | exact .pure _
    | exact tidy_setValue _
    | exact tidy_typeOf
    | exact tidy_setType h _
    | exact tidy_setShape h _
    | exact tidy_mapM (fun _ => tidy_isNumeric) _
    | refine .bind ?_ fun _ => ?_
    | split

lemma tidy_inferMatrix : Tidy opened (inferMatrix id) := by
  refine tidy_childTypes.bind fun _ => (tidy_setCommonType h _).bind fun _ =>
    tidy_childShapes.bind fun shapes => tidy_children.bind fun rows => ?_
  repeat' first
    | exact .pure _
    | exact tidy_setValue _
    | exact tidy_count
    | exact tidy_child _
    | exact tidy_setShape h _
    | exact tidy_write h
    | exact tidy_mapM (fun _ => tidy_value) _
    | refine .bind ?_ fun _ => ?_
    | split

lemma tidy_inferOperator : Tidy opened (inferOperator id) :=
  tidy_childTypes.bind fun _ => tidy_setCommonType h _

lemma tidy_inferTranspose : Tidy opened (inferTranspose id) := by
  refine (tidy_child _).bind fun _ => tidy_typeOf.bind fun _ => (tidy_setType h _).bind fun _ =>
    tidy_isNumeric.bind fun _ => .ite (tidy_shapeOf.bind fun _ => ?_) (.pure _)
  split
  · exact tidy_setShape h _
  · exact tidy_setShape h _
  · exact .pure _

lemma tidy_inferNeg : Tidy opened (inferNeg id) :=
  (tidy_child _).bind fun _ => tidy_typeOf.bind fun _ => (tidy_setType h _).bind fun _ =>
    tidy_hasElement.bind fun _ => .ite (tidy_setElement h _) (.pure _)

lemma tidy_inferMinus : Tidy opened (inferMinus id) :=
  (tidy_inferOperator h).bind fun _ => tidy_hasElement.bind fun _ =>
    .ite (tidy_setElement h _) (.pure _)

lemma tidy_inferFraction : Tidy opened (inferFraction id) := by
  refine (tidy_inferOperator h).bind fun _ => tidy_isNumeric.bind fun _ =>
    .ite (Tidy.bind (tidy_elementOf.bind fun _ => ?_) fun _ => ?_) (.pure _)
  · split
    · exact .pure _
    · exact .throw _
  · exact .ite (tidy_setElement h _) (.pure _)

lemma tidy_inferColon : Tidy opened (inferColon id) := by
  refine tidy_group.bind fun _ => tidy_parent.bind fun _ => .nodeBind (fun above => ?_) fun _ => rfl
  have hrow := tidy_setType h Datatype.rowvec
  have hread : ∀ other, Tidy opened (isNumeric other >>= fun _ => setType id .rowvec) :=
    fun _ => tidy_isNumeric.bind fun _ => hrow
  refine tidy_kind.bind fun _ => .ite (tidy_setType h _) (tidy_kind.bind fun _ =>
    .ite (hread _) ?_)
  exact tidy_kind.bind fun _ => .ite ((tidy_child _).bind fun _ => hread _) hrow

lemma tidy_inferAssigned (index : Int) : Tidy opened (do
    let assigned ← child id index
    if ← isTyped assigned then setType id (← typeOf assigned)) :=
  (tidy_child _).bind fun _ => tidy_isTyped.bind fun _ =>
    .ite (tidy_typeOf.bind fun _ => tidy_setType h _) (.pure _)

lemma tidy_inferField (whole : Bool) : Tidy opened (inferField whole id) :=
  (tidy_isTarget _).bind fun _ => .ite (tidy_parent.bind fun _ =>
    (tidy_suggestAssigned _).bind fun _ => tidy_adoptDeclared h) (tidy_adoptDeclared h)

lemma tidy_inferIndexed (h' : opened id false) : Tidy opened (inferIndexed id) := by
  refine tidy_declaration.bind fun _ => tidy_shapeOf.bind fun shape? => ?_
  split
  · exact .pure _
  · next index hindex =>
    obtain ⟨shape, -, hindex⟩ := Option.bind_eq_some_iff.1 hindex
    exact (tidy_chooseByType h').bind fun _ => (tidy_indexedBy h hindex).bind fun _ => .pure _

lemma tidy_inferSet (h' : opened id false) : Tidy opened (inferSet id) :=
  (tidy_inferIndexed h h').bind fun _ => .ite (tidy_inferField h true) (.pure _)

/-- A rule of inference, but for some, writes the datatype and the rules of its own node only. -/
lemma tidy_rule {configure : NodeId → Edit Unit} {kind : Kind} {rule : NodeId → Edit Unit}
    (h' : opened id false) (hkind : kind ∉ [.var, .get, .lambda])
    (hrule : datatypeRule? configure kind = some rule) : Tidy opened (rule id) := by
  cases kind <;> cases hrule <;>
    first
    | exact absurd (by decide) hkind
    | exact tidy_setType h _
    | exact tidy_inferSet h h'
    | exact tidy_inferField h _
    | exact tidy_inferAssigned h _
    | exact tidy_inferVector h
    | exact tidy_inferMatrix h
    | exact tidy_inferTranspose h
    | exact tidy_inferNeg h
    | exact tidy_inferOperator h
    | exact tidy_inferMinus h
    | exact tidy_inferFraction h
    | exact tidy_inferColon h
    | exact (tidy_child _).bind fun _ => tidy_suggest _

end Writes

/-! ### Visits -/

abbrev nowhere : NodeId → Bool → Prop :=
  fun _ _ => False

/-- No variable is emitted as a record. -/
def Recordless (p : Project) : Prop :=
  ∀ j, (p.node j).kind = .var → (p.node j).backend.isRecord = false

lemma Tidy.type_eq (h : Tidy nowhere m) {a : α} (hrun : m p = .ok a q) (j : NodeId) :
    (q.node j).type = (p.node j).type :=
  (h.kept hrun j).1 not_false

lemma Tidy.recordless (h : Tidy nowhere m) {a : α} (hrun : m p = .ok a q) (hp : Recordless p) :
    Recordless q := by
  intro j hkind
  have hsame := (h.kept hrun j).2 not_false
  rw [show (q.node j).backend = (p.node j).backend from congrArg (·.2.2.2) hsame]
  exact hp j ((congrArg (·.1) hsame).symm.trans hkind)

lemma type_eq_of_inferTarget {assign : NodeId} (hp : Recordless p)
    (hrun : inferTarget id assign p = .ok () q) (j : NodeId) :
    (q.node j).type = (p.node j).type := by
  obtain ⟨assigned, p1, h1, hrun⟩ := exists_of_bind_ok hrun
  obtain ⟨collects, p2, h2, hrun⟩ := exists_of_bind_ok hrun
  have hcollects : Tidy nowhere (collectsField assigned) :=
    .nodeBind (fun _ => .ite ((tidy_child 0).bind fun _ => tidy_count.bind fun _ => .pure _)
      (.pure _)) fun _ => rfl
  have hp2 : Recordless p2 := hcollects.recordless h2 ((tidy_child 1).recordless h1 hp)
  refine Eq.trans ?_ ((hcollects.type_eq h2 j).trans ((tidy_child 1).type_eq h1 j))
  cases collects with
  | true =>
    have htidy : Tidy nowhere (elementOf assigned >>= fun element => declaration id >>= fun own =>
        suggest own (.ranks (some 1) (element.map fun element => element.rank))) :=
      tidy_elementOf.bind fun _ => tidy_declaration.bind fun _ => tidy_suggest _
    exact htidy.type_eq hrun j
  | false =>
    replace hrun : (if (p2.node assigned).kind == .var && (p2.node assigned).backend.isRecord then
      adoptRecord id assigned (p2.node assigned).backend else suggestAssigned id assign) p2 =
        .ok () q := hrun
    rw [if_neg (by simpa using hp2 assigned)] at hrun
    exact (tidy_suggestAssigned assign).type_eq hrun j

/-- A visit that writes no datatype but that of the node itself, if it has none: no reserved name
and, unless the node has a datatype, no call and no copy of a record. -/
@[mk_iff]
structure PlainVisit (p : Project) (id : NodeId) : Prop where
  unreserved : reservedRule? (p.node id).kind (p.node id).name = none
  uncalled : (p.node id).type = .unknown → (p.node id).kind ∈ [.var, .get] →
    calledFunction id p = .ok none p
  named : (p.node id).type = .unknown → (p.node id).kind ≠ .lambda
  recordless : (p.node id).type = .unknown → Recordless p

instance : Decidable (Recordless p) :=
  decidable_of_iff (∀ j < p.size, (p.node j).kind = .var → (p.node j).backend.isRecord = false)
    ⟨fun h j hkind => by
      by_cases hj : j < p.size
      · exact h j hj hkind
      · rw [node_of_size_le (Nat.not_lt.1 hj)]
        rfl, fun h j _ => h j⟩

instance : ∀ r : EStateM.Result Failure Project (Option NodeId), Decidable (r = .ok none p)
  | .ok a q => decidable_of_iff (a = none ∧ q = p) (by simp)
  | .error .. => .isFalse nofun

instance : Decidable (PlainVisit p id) :=
  decidable_of_iff _ (plainVisit_iff p id).symm

abbrev here (id : NodeId) : NodeId → Bool → Prop :=
  fun j _ => j = id

section

variable (hcall : calledFunction id p = .ok none p)

include hcall

lemma inferAsCall_of_uncalled : inferAsCall id p = .ok false p :=
  bind_run hcall rfl

lemma type_eq_of_inferVar (hp : Recordless p) (hrun : inferVar id p = .ok () q) (hj : j ≠ id) :
    (q.node j).type = (p.node j).type := by
  rw [inferVar, bind_ok (inferAsCall_of_uncalled hcall)] at hrun
  obtain ⟨target, p1, h1, hrun⟩ := exists_of_bind_ok hrun
  have htidy : Tidy (here id) (adoptDeclared id) := tidy_adoptDeclared rfl
  refine Eq.trans ?_ ((tidy_isTarget false).type_eq h1 j)
  cases target with
  | false => exact (htidy.kept hrun j).1 hj
  | true =>
    obtain ⟨assign, p2, h2, hrun⟩ := exists_of_bind_ok hrun
    obtain ⟨⟨⟩, p3, h3, hrun⟩ := exists_of_bind_ok hrun
    have hp2 : Recordless p2 := tidy_parent.recordless h2 ((tidy_isTarget false).recordless h1 hp)
    exact ((htidy.kept hrun j).1 hj).trans <|
      (type_eq_of_inferTarget hp2 h3 j).trans (tidy_parent.type_eq h2 j)

lemma type_eq_of_inferGet (hrun : inferGet id p = .ok () q) (hj : j ≠ id) :
    (q.node j).type = (p.node j).type := by
  rw [inferGet, bind_ok (inferAsCall_of_uncalled hcall)] at hrun
  have htidy : Tidy (here id) (inferIndexed id >>= fun indexed =>
      if !indexed then inferField false id else pure ()) :=
    (tidy_inferIndexed rfl rfl).bind fun _ => .ite (tidy_inferField rfl false) (.pure _)
  exact (htidy.kept hrun j).1 hj

end

variable {configure : NodeId → Edit Unit}

lemma type_eq_of_rule {rule : NodeId → Edit Unit} (h : PlainVisit p id)
    (htype : (p.node id).type = .unknown) (hj : j ≠ id)
    (hrule : datatypeRule? configure (p.node id).kind = some rule) (hrun : rule id p = .ok () q) :
    (q.node j).type = (p.node j).type := by
  have hlambda := h.named htype
  have hcall := h.uncalled htype
  by_cases hvar : (p.node id).kind = .var
  · rw [hvar] at hrule hcall
    cases hrule
    exact type_eq_of_inferVar (hcall (by decide)) (h.recordless htype) hrun hj
  by_cases hget : (p.node id).kind = .get
  · rw [hget] at hrule hcall
    cases hrule
    exact type_eq_of_inferGet (hcall (by decide)) hrun hj
  have htidy : Tidy (here id) (rule id) := tidy_rule rfl rfl (by simp [*]) hrule
  exact (htidy.kept hrun j).1 hj

lemma type_eq_of_inferNode (h : PlainVisit p id) (hrun : inferNode configure id p = .ok () q)
    (hj : (p.node j).type ≠ .unknown) : (q.node j).type = (p.node j).type := by
  -- choosing rules writes no datatype
  have hrules : ∀ r, (backend id >>= fun rules =>
      if rules == .unknown then chooseRules id else pure ()) r = .ok () q →
      (q.node j).type = (r.node j).type := by
    intro r hr
    have htidy : Tidy (fun _ b => b = false) (backend id >>= fun rules =>
        if rules == .unknown then chooseRules id else pure ()) :=
      tidy_backend.bind fun _ => .ite (tidy_chooseRules rfl) (.pure _)
    exact (htidy.kept hr j).1 nofun
  obtain ⟨node, p1, h1, hrun⟩ := exists_of_bind_ok hrun
  cases h1
  rw [show reservedRule? (p.nodes.getD id default).kind (p.nodes.getD id default).name = none from
    h.unreserved] at hrun
  obtain ⟨node, p1, h1, hrun⟩ := exists_of_bind_ok hrun
  cases h1
  by_cases htype : (p.node id).type = .unknown
  · have hne : j ≠ id := fun hid => hj (hid ▸ htype)
    rw [show (p.nodes.getD id default).type = .unknown from htype] at hrun
    cases hrule : datatypeRule? configure (p.node id).kind with
    | none =>
      rw [show datatypeRule? configure (p.nodes.getD id default).kind = none from hrule] at hrun
      exact hrules p hrun
    | some rule =>
      rw [show datatypeRule? configure (p.nodes.getD id default).kind = _ from hrule] at hrun
      obtain ⟨⟨⟩, r, hr, hrun⟩ := exists_of_bind_ok hrun
      exact (hrules r hrun).trans (type_eq_of_rule h htype hne hrule hr)
  · have htyped : ((p.node id).type == .unknown) = false := by simpa using htype
    rw [show ((p.nodes.getD id default).type == .unknown) = _ from htyped] at hrun
    exact hrules p hrun

/-! ### Passes -/

/-- Every visit of a pass is plain in the project it is made in. -/
def PlainRun (configure : NodeId → Edit Unit) : List NodeId → Project → Prop
  | [], _ => True
  | id :: rest, p =>
    PlainVisit p id ∧ match inferNode configure id p with
    | .ok _ q => PlainRun configure rest q
    | .error _ _ => True

instance decidablePlainRun : ∀ ids p, Decidable (PlainRun configure ids p)
  | [], _ => .isTrue trivial
  | id :: rest, p => by
    have := decidablePlainRun rest
    unfold PlainRun
    cases inferNode configure id p <;> infer_instance

lemma type_eq_of_inferNodes {ids : List NodeId} (hplain : PlainRun configure ids p)
    (hrun : inferNodes configure ids p = .ok () q) (hj : (p.node j).type ≠ .unknown) :
    (q.node j).type = (p.node j).type := by
  induction ids generalizing p with
  | nil =>
    cases hrun
    rfl
  | cons id ids ih =>
    obtain ⟨⟨⟩, r, hr, hrun⟩ := exists_of_bind_ok hrun
    obtain ⟨hfirst, hrest⟩ := hplain
    rw [hr] at hrest
    have hvisit := type_eq_of_inferNode hfirst hr hj
    exact (ih hrest hrun (hvisit ▸ hj)).trans hvisit

lemma tidy_clearLogs (programs : List NodeId) : Tidy opened (clearLogs programs) := by
  induction programs with
  | nil => exact .pure _
  | cons program programs ih =>
    refine (tidy_child _).bind fun _ => .bind ?_ fun _ => ih
    exact .amend fun _ => rfl

lemma type_eq_of_inferBelow (hplain : PlainRun configure (p.postorder true id) p)
    (hrun : inferBelow configure false id p = .ok () q) (hj : (p.node j).type ≠ .unknown) :
    (q.node j).type = (p.node j).type := by
  obtain ⟨⟨⟩, r, hr, hrun⟩ := exists_of_bind_ok (show (inferPasses configure false
    (p.postorder true id) (p.nodes.size + 100) >>= fun _ => children root >>= clearLogs) p = _
    from hrun)
  obtain ⟨⟨⟩, r', hr', hdone⟩ := exists_of_bind_ok hr
  cases hdone
  have hlogs : Tidy nowhere (children root >>= clearLogs) := tidy_children.bind fun _ =>
    tidy_clearLogs _
  exact (hlogs.type_eq hrun j).trans (type_eq_of_inferNodes hplain hr' hj)

/-- Inferring datatypes without taking suggestions keeps every datatype that is known, if all
visits are plain. -/
theorem type_eq_of_configureSteps {n : Nat}
    (hplain : PlainRun (configureSteps n true) (p.postorder true id) p)
    (hplain' : ∀ r, inferBelow (configureSteps n true) false id p = .ok () r →
      PlainRun (configureSteps n true) (r.postorder true id) r)
    (hrun : configureSteps (n + 1) false id p = .ok () q) (hj : (p.node j).type ≠ .unknown) :
    (q.node j).type = (p.node j).type := by
  obtain ⟨⟨⟩, r, hr, hrun⟩ := exists_of_bind_ok hrun
  have hfirst := type_eq_of_inferBelow hplain hr hj
  exact (type_eq_of_inferBelow (hplain' r hr) hrun (hfirst ▸ hj)).trans hfirst

/-- A function is read, and its parameter and the variable it declares are given datatypes. -/
def typedFunction : Edit Unit := do
  load "unamed" "function y = f(x)\ny = x\nend"
  setFunctionTypes 1 [("f", [("x", .named "vec"), ("y", .named "double")])]

theorem type_eq_of_configureSteps_sample : ∃ p q, typedFunction {} = .ok () p ∧
    configureSteps 1 false root p = .ok () q ∧ ∀ j ∈ [13, 17],
      (p.node j).kind = .var ∧ (p.node (p.node j).parent).kind ∈ [Kind.params, .declares] ∧
      (p.node j).type ≠ .unknown ∧ (q.node j).type = (p.node j).type := by
  let plain (p : Project) : Prop := PlainRun (configureSteps 0 true) (p.postorder true root) p
  have hruns : typedFunction.passes {} (fun _ p => decide ((∀ j ∈ ([13, 17] : List Nat),
      (p.node j).kind = .var ∧ (p.node (p.node j).parent).kind ∈ [Kind.params, .declares] ∧
      (p.node j).type ≠ .unknown) ∧ plain p) &&
      (inferBelow (configureSteps 0 true) false root).passes p (fun _ r => decide (plain r)) &&
      (configureSteps 1 false root).passes p fun _ _ => true) = true := by decide +kernel
  obtain ⟨⟨⟩, p, hload, htest⟩ := exists_of_passes hruns
  simp only [Bool.and_eq_true, decide_eq_true_eq] at htest
  obtain ⟨⟨⟨htyped, hplain⟩, hfirst⟩, hlast⟩ := htest
  obtain ⟨⟨⟩, r, hr, hplain'⟩ := exists_of_passes hfirst
  obtain ⟨⟨⟩, q, hrun, -⟩ := exists_of_passes hlast
  refine ⟨p, q, hload, hrun, fun j hj => ?_⟩
  obtain ⟨hkind, hlist, htype⟩ := htyped j hj
  refine ⟨hkind, hlist, htype, type_eq_of_configureSteps hplain (fun r' hr' => ?_) hrun htype⟩
  cases hr'.symm.trans hr
  exact of_decide_eq_true hplain'

end Edit

end ArmaGen
