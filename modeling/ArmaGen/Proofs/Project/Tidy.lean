import ArmaGen.Proofs.Project.Load
import ArmaGen.Proofs.Syntax.Promise

/-!
# Looking up and declaring

Looking up and declaring is done in a few steps only: reading what is not a place, changes of a node
that leave it where it is, and new nodes that promise nothing and have no place of their own
(`Edit.Tidy`).
-/

namespace ArmaGen

open Project

/-- The node without its place: line, position and text are dropped. -/
def Node.placeless (node : Node) : Node :=
  { node with line? := none, cur? := none, code? := none, foundLine? := none }

/-- Where a node stands and where its text is. -/
def Node.site (node : Node) : Kind × NodeId × Option Int × Option String × Option Int :=
  (node.kind, node.parent, node.cur?, node.code?, node.foundLine?)

/-- Where a node stands, and its name and rules. -/
def Node.caption (node : Node) : Kind × NodeId × String × RuleSet :=
  (node.kind, node.parent, node.name, node.backend)

/-- The kinds of nodes around functions. -/
def Kind.isOuter : Kind → Bool
  | .project | .program | .funcs => true
  | _ => false

/-- A node that promises nothing and has no place of its own. -/
def Node.Loose (node : Node) : Prop :=
  node.kind.promise = .any ∧ node.kind.isOuter = false ∧ node.cur? = none ∧ node.foundLine? = none

namespace Project

/-- The project without places, and without the text that was read and the lines that were
shown. -/
def placeless (p : Project) : Project :=
  { p with nodes := p.nodes.map Node.placeless, text? := none, shown := [] }

lemma node_placeless (p : Project) (id : NodeId) : p.placeless.node id = (p.node id).placeless := by
  simp only [node, placeless, Array.getD_eq_getD_getElem?, Array.getElem?_map]
  cases p.nodes[id]? <;> rfl

lemma size_placeless (p : Project) : p.placeless.size = p.size :=
  Array.size_map ..

end Project

namespace Edit

variable {α β : Type}

/-- Computations that look at no places, leave nodes where they are, and change only the datatypes
(`opened id true`) and rules (`opened id false`) that are open. -/
inductive Tidy (opened : NodeId → Bool → Prop) : {α : Type} → Edit α → Prop
  | pure {α : Type} (a : α) : Tidy opened (Pure.pure a)
  | throw {α : Type} (failure : Failure) : Tidy opened (throwThe Failure failure : Edit α)
  | getBind {β : Type} {f : Project → Edit β} (hf : ∀ p, Tidy opened (f p))
      (hplaceless : ∀ p, f p.placeless = f p) : Tidy opened (get >>= f)
  | nodeBind {β : Type} {id : NodeId} {f : Node → Edit β} (hf : ∀ node, Tidy opened (f node))
      (hplaceless : ∀ node, f node.placeless = f node) : Tidy opened (node id >>= f)
  | update {id : NodeId} {f : Node → Node}
      (hplaceless : ∀ node, (f node.placeless).placeless = (f node).placeless)
      (hkeeps : ∀ node, (f node).site = node.site ∧ (f node).name = node.name)
      (htype : opened id true ∨ ∀ node, (f node).type = node.type)
      (hbackend : opened id false ∨ ∀ node, (f node).backend = node.backend) :
      Tidy opened (update id f)
  | make {parent : NodeId} {node : Node} (hnode : node.Loose)
      (hall : ∀ id b, opened id b) : Tidy opened (make parent node)
  | bind {α β : Type} {m : Edit α} {f : α → Edit β} (hm : Tidy opened m)
      (hf : ∀ a, Tidy opened (f a)) : Tidy opened (m >>= f)

abbrev anywhere : NodeId → Bool → Prop :=
  fun _ _ => True

variable {opened : NodeId → Bool → Prop}

lemma Tidy.ite {c : Prop} [Decidable c] {m n : Edit α} (hm : Tidy opened m) (hn : Tidy opened n) :
    Tidy opened (if c then m else n) := by
  split
  · exact hm
  · exact hn

/-! ### Fields and children -/

variable {id : NodeId} {name : String}

lemma tidy_kind : Tidy opened (kind id) :=
  .nodeBind (fun _ => .pure _) fun _ => rfl

lemma tidy_name : Tidy opened (Edit.name id) :=
  .nodeBind (fun _ => .pure _) fun _ => rfl

lemma tidy_value : Tidy opened (value id) :=
  .nodeBind (fun _ => .pure _) fun _ => rfl

lemma tidy_parent : Tidy opened (parent id) :=
  .nodeBind (fun _ => .pure _) fun _ => rfl

lemma tidy_children : Tidy opened (children id) :=
  .nodeBind (fun _ => .pure _) fun _ => rfl

lemma tidy_names : Tidy opened (names id) := by
  refine .getBind (fun p => tidy_children.bind fun ids => .pure _) fun p => ?_
  show (children id >>= fun ids => pure (ids.map fun child => (p.placeless.node child).name)) = _
  simp only [node_placeless]
  rfl

lemma tidy_child (index : Int) : Tidy opened (child id index) := by
  refine .nodeBind (fun node => .ite (.throw _) ?_) fun _ => rfl
  extract_lets k
  split
  · exact .pure _
  · exact .throw _

lemma tidy_hasChild : Tidy opened (hasChild id name) :=
  tidy_names.bind fun _ => .pure _

lemma tidy_childNamed : Tidy opened (childNamed id name) := by
  refine tidy_names.bind fun names => ?_
  split
  · exact tidy_child _
  · exact .throw _

lemma tidy_height : Tidy opened height :=
  .getBind (fun _ => .pure _) fun p => by
    show pure (p.placeless.size + 1) = pure (p.size + 1)
    rw [size_placeless]

/-! ### Looking up -/

lemma tidy_enclosing (wanted : Kind → Bool) (n : Nat) (id : NodeId) :
    Tidy opened (enclosing wanted n id) := by
  induction n generalizing id with
  | zero => exact .throw _
  | succ n ih =>
    exact tidy_kind.bind fun _ => .ite (.pure _) (tidy_parent.bind fun _ => ih _)

lemma tidy_func : Tidy opened (func id) :=
  tidy_height.bind fun _ => tidy_enclosing ..

lemma tidy_program : Tidy opened (program id) :=
  tidy_height.bind fun _ => tidy_enclosing ..

lemma tidy_funcsOf : Tidy opened (funcsOf id) :=
  tidy_program.bind fun _ => tidy_child _

lemma tidy_structsOf : Tidy opened (structsOf id) :=
  tidy_program.bind fun _ => tidy_child _

lemma tidy_headersOf : Tidy opened (headersOf id) :=
  tidy_program.bind fun _ => tidy_child _

lemma tidy_declaresOf : Tidy opened (declaresOf id) :=
  tidy_func.bind fun _ => tidy_child _

lemma tidy_paramsOf : Tidy opened (paramsOf id) :=
  tidy_func.bind fun _ => tidy_child _

lemma tidy_fieldName? : Tidy opened (fieldName? id) := by
  refine .nodeBind (fun node => .ite ?_ (.pure _)) fun _ => rfl
  refine (tidy_child 0).bind fun index => tidy_kind.bind fun _ => .ite ?_ (.pure _)
  exact tidy_childNamed.bind fun _ => .pure _

/-- A node stays where it is, and keeps its datatype and its rules. -/
lemma Tidy.amend {f : Node → Node}
    (h : ∀ node, ((f node.placeless).placeless, (f node).site, (f node).name, (f node).type,
      (f node).backend) = ((f node).placeless, node.site, node.name, node.type, node.backend)) :
    Tidy opened (Edit.update id f) := by
  simp only [Prod.mk.injEq] at h
  exact .update (fun node => (h node).1) (fun node => ⟨(h node).2.1, (h node).2.2.1⟩)
    (.inr fun node => (h node).2.2.2.1) (.inr fun node => (h node).2.2.2.2)

lemma tidy_found (declaration : NodeId) : Tidy opened (found id declaration) :=
  .bind (.amend fun _ => rfl) fun _ => .pure _

lemma tidy_fieldDeclaration : Tidy opened (fieldDeclaration id) := by
  refine tidy_fieldName?.bind fun field? => ?_
  cases field? with
  | none => exact .pure id
  | some field =>
    refine tidy_name.bind fun _ => tidy_structsOf.bind fun _ => tidy_hasChild.bind fun _ =>
      .ite (.pure id) ?_
    refine tidy_childNamed.bind fun _ => tidy_hasChild.bind fun _ =>
      .ite (.pure id) ?_
    exact tidy_childNamed.bind fun _ => tidy_found _

lemma tidy_variableDeclaration : Tidy opened (variableDeclaration id) := by
  refine tidy_name.bind fun _ => tidy_declaresOf.bind fun _ => tidy_hasChild.bind fun _ =>
    .ite (tidy_childNamed.bind fun _ => tidy_found _) ?_
  exact tidy_paramsOf.bind fun _ => tidy_hasChild.bind fun _ =>
    .ite (tidy_childNamed.bind fun _ => tidy_found _) (.pure id)

lemma tidy_declaration : Tidy opened (declaration id) := by
  refine .nodeBind (fun node => ?_) fun _ => rfl
  cases node.declare? with
  | some declaration => exact .pure declaration
  | none =>
    refine .ite (.pure id) (.ite tidy_fieldDeclaration ?_)
    exact tidy_kind.bind fun _ => .ite (.pure id) tidy_variableDeclaration

lemma tidy_typeOf : Tidy opened (typeOf id) := by
  refine .nodeBind (fun node => ?_) fun _ => rfl
  cases node.type with
  | unknown =>
    exact tidy_declaration.bind fun _ => .nodeBind (fun _ => .pure _) fun _ => rfl
  | _ => exact .pure _

/-! ### Declaring -/

lemma tidy_setType (h : opened id true) (type : Datatype) : Tidy opened (setType id type) :=
  .update (fun _ => rfl) (fun _ => ⟨rfl, rfl⟩) (.inl h) (.inr fun _ => rfl)

lemma tidy_make {node : Node} (hnode : node.Loose) : Tidy anywhere (make id node) :=
  .make hnode fun _ _ => trivial

lemma tidy_makeTyped {value : String} {type : Datatype} :
    Tidy anywhere (makeTyped id name value type) :=
  (tidy_make ⟨rfl, rfl, rfl, rfl⟩).bind fun _ => tidy_setType trivial type

lemma tidy_declareField (field : String) : Tidy anywhere (declareField id field) := by
  refine .nodeBind (fun node => tidy_structsOf.bind fun structs => tidy_kind.bind fun _ =>
    .ite (.throw _) ?_) fun _ => rfl
  -- the record is there or made, and gets the field unless it has it
  extract_lets enter
  have henter : ∀ struct, Tidy anywhere (enter struct) := by
    intro struct
    refine tidy_hasChild.bind fun _ => .ite (.pure _) (tidy_declaresOf.bind fun declares => ?_)
    extract_lets finish list
    have hfinish : ∀ u, Tidy anywhere (finish u) := fun _ =>
      (tidy_make ⟨rfl, rfl, rfl, rfl⟩).bind fun _ => .pure _
    have hlist : ∀ u, Tidy anywhere (list u) := fun _ =>
      tidy_hasChild.bind fun _ => .ite (tidy_makeTyped.bind hfinish) (hfinish ())
    refine .ite ?_ (tidy_hasChild.bind fun _ => .ite (tidy_makeTyped.bind hfinish) (hfinish ()))
    exact tidy_hasChild.bind fun _ =>
      .ite ((tidy_make ⟨rfl, rfl, rfl, rfl⟩).bind fun _ => hlist ()) (hlist ())
  refine tidy_hasChild.bind fun _ => .ite (tidy_childNamed.bind henter) ?_
  exact (tidy_make ⟨rfl, rfl, rfl, rfl⟩).bind henter

lemma tidy_declareVariable : Tidy anywhere (declareVariable id) := by
  refine tidy_name.bind fun _ => tidy_declaresOf.bind fun _ => tidy_hasChild.bind fun _ =>
    .ite ?_ ?_
  · refine tidy_childNamed.bind fun _ => tidy_typeOf.bind fun _ => (tidy_setType trivial _).bind
      fun _ => ?_
    exact .nodeBind (fun _ => .amend fun _ => rfl) fun _ => rfl
  · refine .nodeBind (fun _ => ?_) fun _ => rfl
    exact (tidy_make ⟨rfl, rfl, rfl, rfl⟩).bind fun _ => tidy_typeOf.bind fun _ =>
      tidy_setType trivial _

lemma tidy_declare : Tidy anywhere (declare id) := by
  refine tidy_declaration.bind fun _ => .ite (.pure ()) ?_
  refine .nodeBind (fun node => .ite ?_ ?_) fun _ => rfl
  · refine (tidy_child 0).bind fun _ => tidy_kind.bind fun _ => .ite (.pure ()) ?_
    exact tidy_value.bind fun _ => tidy_declareField _
  · exact .ite (tidy_declareField _) tidy_declareVariable

/-! ### Building -/

lemma tidy_declareAll (ids : List NodeId) : Tidy anywhere (declareAll ids) := by
  induction ids with
  | nil => exact .pure ()
  | cons id ids ih => exact tidy_declare.bind fun _ => ih

lemma tidy_completeFunction : Tidy anywhere (completeFunction id) := by
  refine (tidy_child 1).bind fun _ => tidy_children.bind fun _ => (tidy_declareAll _).bind
    fun _ => ?_
  exact tidy_headersOf.bind fun _ => tidy_name.bind fun _ => (tidy_make ⟨rfl, rfl, rfl, rfl⟩).bind
    fun _ => .pure ()

lemma tidy_captureFrom (ids : List NodeId) : Tidy anywhere (captureFrom id ids) := by
  induction ids with
  | nil => exact .pure ()
  | cons other ids ih =>
    refine tidy_kind.bind fun _ => .ite ?_ ih
    refine tidy_declaresOf.bind fun _ => tidy_names.bind fun _ => tidy_paramsOf.bind fun _ =>
      tidy_names.bind fun _ => tidy_name.bind fun _ => .ite ?_ ih
    exact tidy_declare.bind fun _ => ih

section

variable (p : Project) (backwards : Bool)

lemma childrenIn_placeless (id : NodeId) :
    p.placeless.childrenIn backwards id = p.childrenIn backwards id := by
  unfold childrenIn
  rw [node_placeless]
  rfl

lemma postorderSteps_placeless (n : Nat) (id : NodeId) :
    p.placeless.postorderSteps backwards n id = p.postorderSteps backwards n id := by
  induction n generalizing id with
  | zero => rfl
  | succ n ih =>
    rw [postorderSteps, postorderSteps, childrenIn_placeless, funext ih]

lemma postorder_placeless (id : NodeId) :
    p.placeless.postorder backwards id = p.postorder backwards id := by
  unfold postorder
  rw [postorderSteps_placeless]
  exact congrArg (fun n => p.postorderSteps backwards (n + 1) id) (size_placeless p)

lemma preorder_placeless (id : NodeId) :
    p.placeless.preorder backwards id = p.preorder backwards id := by
  have hpost := postorder_placeless p (!backwards) id
  unfold postorder at hpost
  unfold preorder
  rw [preorderSteps_eq_reverse, preorderSteps_eq_reverse, hpost]

end

lemma tidy_nodesBelow : Tidy anywhere (nodesBelow id) :=
  .getBind (fun _ => .pure _) fun p => by rw [preorder_placeless]

lemma tidy_completeAnonymous (parent : NodeId) : Tidy anywhere (completeAnonymous parent id) := by
  refine (tidy_child 3).bind fun _ => (tidy_child 0).bind fun _ => (tidy_child 1).bind
    fun _ => tidy_nodesBelow.bind fun _ => (tidy_captureFrom _).bind fun _ => ?_
  refine (tidy_child 1).bind fun _ => tidy_children.bind fun _ => (tidy_declareAll _).bind
    fun _ => ?_
  exact tidy_name.bind fun _ => (tidy_make ⟨rfl, rfl, rfl, rfl⟩).bind fun _ => .amend fun _ => rfl

/-! ### Loading -/

lemma tidy_reserveNames (reserved : List String) (ids : List NodeId) :
    Tidy anywhere (reserveNames reserved ids) := by
  induction ids with
  | nil => exact .pure ()
  | cons id ids ih =>
    refine tidy_name.bind fun _ => .ite ?_ ih
    exact .bind (.update (fun _ => rfl) (fun _ => ⟨rfl, rfl⟩) (.inl trivial) (.inl trivial))
      fun _ => ih

lemma tidy_findUnassigned (name : String) : Tidy anywhere (findUnassigned name) := by
  refine tidy_names.bind fun names => ?_
  cases names.idxOf? name with
  | none => exact .throw _
  | some index =>
    refine (tidy_child _).bind fun program => ?_
    have hids : Tidy anywhere (nodesBottomUp program) :=
      .getBind (fun _ => .pure _) fun p => by rw [postorder_placeless]
    refine hids.bind fun ids => .getBind (fun p => ?_) fun p => ?_
    · exact (tidy_reserveNames _ _).bind fun _ => .amend fun _ => rfl
    · simp only [unassignedNames, occurrences, node_placeless]
      rfl

end Edit

end ArmaGen
