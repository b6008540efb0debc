import ArmaGen.Proofs.Script.Untyped
import Mathlib.Data.List.Induction

/-!
# Which variables a function declares

A name that is assigned is declared where it is met first, unless it is a parameter
(`Edit.exists_declare_eq`). A function so declares what its block assigns and what it returns, each
name once (`Edit.exists_declared_names`).
-/

namespace ArmaGen

open List

/-- The declared names after one more is asked for, in a function with some parameters. -/
def enlist (params names : List String) (name : String) : List String :=
  if name ∈ names ∨ name ∈ params then names else names ++ [name]

lemma foldl_enlist_eq (params targets : List String) :
    targets.foldl (enlist params) [] = (targets.filter (! params.contains ·)).eraseDups := by
  induction targets using reverseRecOn with
  | nil => simp
  | append_singleton targets name ih =>
    rw [foldl_append, ih, filter_append, eraseDups_append]
    by_cases hparam : name ∈ params <;> by_cases hname : name ∈ targets <;>
      simp [enlist, hparam, hname, removeAll, eraseDups_cons]

lemma nodup_foldl_enlist (params targets : List String) :
    (targets.foldl (enlist params) []).Nodup := by
  induction targets using reverseRecOn with
  | nil => exact nodup_nil
  | append_singleton targets name ih =>
    rw [foldl_append, foldl_cons, enlist]
    split
    · exact ih
    · exact nodup_append.2 ⟨ih, by simp, by grind⟩

/-- The kinds of nodes that are declared as variables, if they are. -/
def Kind.isVariable (kind : Kind) : Bool :=
  !kind.isUndeclared && !kind.isField

namespace Syntax

mutual

/-- The names that a tree below a node with some name asks to declare, in order. -/
def targets (name : String) : Syntax → List String
  | .declare => [name]
  | .node head items => targetsAll head.name items

def targetsAll (name : String) : List Syntax → List String
  | [] => []
  | item :: rest => targets name item ++ targetsAll name rest

end

mutual

/-- A tree inside of a function, without fields, whose nodes are declared after what is below. -/
def Local : Syntax → Prop
  | .declare => False
  | .node head items => head.kind.isInner = true ∧ head.kind.isVariable = true ∧ Locals items

def Locals : List Syntax → Prop
  | [] => True
  | [.declare] => True
  | item :: rest => Local item ∧ Locals rest

end

end Syntax

namespace Project

variable {p p' : Project} {f d q id j parent : Nat} {ns ps : List String} {g : Node → Node}

/-! ### Functions and their names -/

/-- A function that has declared some names, and has some parameters. -/
structure Scope (f d q : Nat) (ns ps : List String) (p : Project) : Prop where
  parts : ∃ r more, (p.node f).children = d :: r :: q :: more
  lt_size : f < p.size ∧ d < p.size ∧ q < p.size
  kind : (p.node d).kind = .declares ∧ (p.node q).kind = .params
  linked : ∀ j, j = d ∨ j = q → ∀ c ∈ (p.node j).children, c < p.size ∧ (p.node c).parent = j
  names : p.namesBelow d = ns ∧ p.namesBelow q = ps

lemma Scope.grows {A : Nat → Prop} (h : p.Scope f d q ns ps) (cs : List Nat)
    (hg : p.Grows A p') (hA : ¬ A q) (hd : (p'.node d).children = (p.node d).children ++ cs)
    (hcs : ∀ c ∈ cs, c < p'.size ∧ (p'.node c).parent = d) :
    p'.Scope f d q (ns ++ cs.map fun c => (p'.node c).name) ps := by
  obtain ⟨r, more, hparts⟩ := h.parts
  obtain ⟨hf, hd', hq'⟩ := h.lt_size
  obtain ⟨rest, hrest⟩ := hg.grown f hf
  have hq : (p'.node q).children = (p.node q).children :=
    hg.children q hq' hA (by rw [h.kind.2]; decide)
  have hold : ∀ j, j = d ∨ j = q → ∀ c ∈ (p.node j).children,
      c < p'.size ∧ (p'.node c).parent = j := by
    intro j hj c hc
    obtain ⟨hlt, hparent⟩ := h.linked j hj c hc
    exact ⟨hg.lt hlt, (hg.parent hlt).trans hparent⟩
  have hnames : ∀ j, j = d ∨ j = q →
      (p.node j).children.map (fun c => (p'.node c).name) = p.namesBelow j :=
    fun j hj => map_congr_left fun c hc => hg.name (h.linked j hj c hc).1
  refine ⟨⟨r, more ++ rest, by rw [← hrest, hparts]; rfl⟩, ?_,
    ⟨(hg.kind hd').trans h.kind.1, (hg.kind hq').trans h.kind.2⟩, ?_, ?_, ?_⟩
  · have := hg.size_le
    omega
  · rintro j (rfl | rfl) c hc
    · rw [hd] at hc
      exact (mem_append.1 hc).elim (hold j (.inl rfl) c) (hcs c)
    · exact hold j (.inr rfl) c (hq ▸ hc)
  · rw [namesBelow, hd, map_append, hnames d (.inl rfl), h.names.1]
  · rw [namesBelow, hq, hnames q (.inr rfl), h.names.2]

lemma Scope.make (h : p.Scope f d q ns ps) (node : Node) (hlt : parent < p.size) (hq : parent ≠ q) :
    (p.make parent node).Scope f d q (if parent = d then ns ++ [node.name] else ns) ps := by
  have hgrows : p.Grows (· = parent) (p.make parent node) := grows_make hlt (.inl rfl)
  split
  · next hd =>
    subst hd
    have := h.grows [p.size] hgrows hq.symm (by rw [node_make_parent hlt])
      (by simp [size_make, node_make_new node hlt])
    simpa [node_make_new node hlt] using this
  · next hd =>
    have := h.grows [] hgrows hq.symm
      (by rw [node_make_of_ne h.lt_size.2.1 (Ne.symm hd), append_nil]) (by simp)
    simpa using this

/-- What is known of the declaration of a node, and by which rules it is looked for. -/
def lookup (p : Project) (id : Nat) : Option Nat × RuleSet :=
  ((p.node id).declare?, (p.node id).backend)

/-- Only declared variables are new, but for what is found out at a node and put below it. -/
structure Enlists (f d q id : Nat) (ns ps : List String) (p p' : Project) : Prop extends
    p'.Scope f d q ns ps where
  grows : p.Grows (· = id) p'
  lookup : ∀ j < p.size, j ≠ id → p'.lookup j = p.lookup j

lemma Scope.enlists (h : p.Scope f d q ns ps) (id : Nat) : p.Enlists f d q id ns ps p :=
  ⟨h, .refl _ p, fun _ _ _ => rfl⟩

lemma Enlists.trans {ms : List String} {p'' : Project} (h : p.Enlists f d q id ms ps p')
    (h' : p'.Enlists f d q id ns ps p'') : p.Enlists f d q id ns ps p'' :=
  ⟨h'.toScope, h.grows.trans h'.grows fun _ _ h => h, fun j hj hne =>
    (h'.lookup j (Nat.lt_of_lt_of_le hj h.grows.size_le) hne).trans (h.lookup j hj hne)⟩

lemma Scope.enlists_update (h : p.Scope f d q ns ps)
    (hg : ∀ node, (g node).label = node.label ∧ (g node).children = node.children)
    (hlookup : j = id ∨ ∀ node, ((g node).declare?, (g node).backend) =
      (node.declare?, node.backend)) :
    p.Enlists f d q id ns ps (p.update j g) := by
  have hgrows : p.Grows (· = id) (p.update j g) := grows_update hg
  have hchildren : ((p.update j g).node d).children = (p.node d).children ++ [] :=
    (apply_node_update fun node => (hg node).2).trans (append_nil _).symm
  refine ⟨?_, hgrows, fun k _ hne => ?_⟩
  · have := h.grows [] (grows_update (A := fun _ => False) hg) not_false hchildren (by simp)
    simpa using this
  · rcases hlookup with rfl | hlookup
    · rw [lookup, node_update_of_ne hne]
      rfl
    · exact apply_node_update (g := fun node => (node.declare?, node.backend)) hlookup

/-- A node that names a variable of a function, whose declaration is not known yet. -/
structure Target (f d q id : Nat) (p : Project) : Prop where
  encloses : p.Encloses Kind.boundsFunction f id
  kind : (p.node id).kind.isVariable = true
  lookup : (p.node id).declare? = none ∧ (p.node id).backend.isRecord = false
  above : (p.node id).parent < p.size ∧ (p.node (p.node id).parent).kind ≠ .struct
  parent : (p.node id).parent ≠ d ∧ (p.node id).parent ≠ q

lemma Target.grows {A : Nat → Prop} (h : p.Target f d q id) (hg : p.Grows A p')
    (hlookup : p'.lookup id = p.lookup id) : p'.Target f d q id := by
  have hid := h.encloses.lt_size
  obtain ⟨hdeclare, hbackend⟩ := Prod.mk.inj hlookup
  refine ⟨h.encloses.grows hg, hg.kind hid ▸ h.kind, hdeclare ▸ hbackend ▸ h.lookup, ?_, ?_⟩ <;>
    rw [hg.parent hid]
  · exact ⟨hg.lt h.above.1, hg.kind h.above.1 ▸ h.above.2⟩
  · exact h.parent

lemma Scope.inside (h : p.Scope f d q ns ps) (hid : p.Encloses Kind.boundsFunction f id) :
    p.Inside f d q id :=
  ⟨hid, h.parts, h.kind.1, h.lt_size.2.1⟩

end Project

namespace Edit

open Project

variable {p p' : Project} {f d q id : Nat} {ns ps : List String}

/-! ### Declaring a variable -/

/-- A name is looked for among the nodes below a node. -/
lemma search_eq (p : Project) (id j : Nat) (n : String) (x : Edit Nat) :
    (n ∈ p.namesBelow j → ∃ c ∈ (p.node j).children, (do
        if ← hasChild j n then found id (← childNamed j n) else x : Edit Nat) p =
      .ok c (p.update id fun node => { node with declare? := some c })) ∧
    (n ∉ p.namesBelow j → (do
        if ← hasChild j n then found id (← childNamed j n) else x : Edit Nat) p = x p) := by
  have hhas : hasChild j n p = .ok ((p.namesBelow j).contains n) p := rfl
  refine ⟨fun h => ?_, fun h => bind_run hhas (by rw [if_neg (by simpa using h)])⟩
  obtain ⟨c, hc, hrun⟩ := exists_childNamed_eq h
  refine ⟨c, hc, bind_run hhas ?_⟩
  rw [if_pos (contains_iff_mem.2 h), bind_ok hrun]
  rfl

section

variable (h : p.Scope f d q ns ps) (ht : p.Target f d q id)

include h ht

lemma exists_declaration_eq : ∃ c p', declaration id p = .ok c p' ∧ p.Enlists f d q id ns ps p' ∧
      ((p.node id).name ∈ ns ∨ (p.node id).name ∈ ps → c ≠ id) ∧
      (¬ ((p.node id).name ∈ ns ∨ (p.node id).name ∈ ps) → c = id ∧ p' = p) := by
  have hin := h.inside ht.encloses
  have hne : ∀ c, c ∈ (p.node d).children ∨ c ∈ (p.node q).children → c ≠ id := by
    rintro c (hc | hc) rfl
    · exact ht.parent.1 (h.linked d (.inl rfl) c hc).2
    · exact ht.parent.2 (h.linked q (.inr rfl) c hc).2
  have hdeclares := search_eq p id d (p.node id).name (do
    let params ← paramsOf id
    if ← hasChild params (p.node id).name then found id (← childNamed params (p.node id).name)
    else return id)
  have hparams := search_eq p id q (p.node id).name (return id)
  rw [h.names.1] at hdeclares
  rw [h.names.2] at hparams
  have hkind : (p.node id).kind.isUndeclared = false ∧ (p.node id).kind.isField = false := by
    simpa [Kind.isVariable] using ht.kind
  rw [declaration, node_bind, ht.lookup.1]
  simp only [hkind, ht.lookup.2]
  show ∃ c p', (if (p.node (p.node id).parent).kind == .struct then _ else _ : Edit Nat) p = _ ∧ _
  rw [if_neg (by simpa using ht.above.2)]
  have hupdate c : p.Enlists f d q id ns ps (p.update id fun node =>
    { node with declare? := some c }) := h.enlists_update (fun _ => ⟨rfl, rfl⟩) (.inl rfl)
  by_cases hd : (p.node id).name ∈ ns
  · obtain ⟨c, hc, hrun⟩ := hdeclares.1 hd
    exact ⟨c, _, (bind_ok (declaresOf_eq hin)).trans hrun, hupdate c, fun _ => hne c (.inl hc),
      fun hnot => absurd (.inl hd) hnot⟩
  have hskip : variableDeclaration id p = (do
      if ← hasChild q (p.node id).name then found id (← childNamed q (p.node id).name)
      else return id) p :=
    (bind_ok (declaresOf_eq hin)).trans ((hdeclares.2 hd).trans (bind_ok (paramsOf_eq hin)))
  by_cases hq : (p.node id).name ∈ ps
  · obtain ⟨c, hc, hrun⟩ := hparams.1 hq
    exact ⟨c, _, hskip.trans hrun, hupdate c, fun _ => hne c (.inr hc),
      fun hnot => absurd (.inr hq) hnot⟩
  · exact ⟨id, p, hskip.trans (hparams.2 hq), h.enlists id,
      fun hmem => absurd hmem (by simp [hd, hq]), fun _ => ⟨rfl, rfl⟩⟩

lemma exists_typeOf_eq : ∃ type p', typeOf id p = .ok type p' ∧ p.Enlists f d q id ns ps p' := by
  rw [typeOf, node_bind]
  cases (p.node id).type with
  | unknown =>
    obtain ⟨c, p', hrun, henlists, -⟩ := exists_declaration_eq h ht
    exact ⟨_, p', bind_ok hrun, henlists⟩
  | _ => exact ⟨_, p, rfl, h.enlists id⟩

lemma exists_declareVariable_eq (hnew : (p.node id).name ∉ ns) :
    ∃ p', declareVariable id p = .ok () p' ∧
      p.Enlists f d q id (ns ++ [(p.node id).name]) ps p' := by
  have hd := h.lt_size.2.1
  have hhas : hasChild d (p.node id).name p =
    .ok ((p.namesBelow d).contains (p.node id).name) p := rfl
  have hne : d ≠ q := by
    rintro rfl
    cases h.kind.1.symm.trans h.kind.2
  let node : Node :=
    { kind := .var, name := (p.node id).name, pointer := (p.node id).pointer,
      value := (p.node id).value }
  have hlookup : ∀ j < p.size, (p.make d node).lookup j = p.lookup j := fun j hj =>
    apply_node_make (g := fun node => (node.declare?, node.backend)) hd hj fun _ _ => rfl
  have hmade : p.Enlists f d q id (ns ++ [(p.node id).name]) ps (p.make d node) := by
    refine ⟨?_, grows_make hd (.inr h.kind.1), fun j hj _ => hlookup j hj⟩
    simpa using h.make node hd hne
  obtain ⟨type, p1, htype, htyped⟩ := exists_typeOf_eq hmade.toScope
    (ht.grows hmade.grows (hlookup id ht.encloses.lt_size))
  obtain ⟨p2, hset, hend⟩ : ∃ p2, setType p.size type p1 = .ok () p2 ∧
      p1.Enlists f d q id (ns ++ [(p.node id).name]) ps p2 :=
    ⟨_, rfl, htyped.toScope.enlists_update (fun _ => ⟨rfl, rfl⟩) (.inr fun _ => rfl)⟩
  refine ⟨p2, ?_, hmade.trans (htyped.trans hend)⟩
  refine (bind_ok (declaresOf_eq (h.inside ht.encloses))).trans (bind_run hhas ?_)
  rw [h.names.1, if_neg (by simpa using hnew), node_bind]
  exact bind_run rfl (bind_run htype hset)

/-- A variable that is to be declared is so, unless it is already or is a parameter. -/
lemma exists_declare_eq : ∃ p', declare id p = .ok () p' ∧
      p.Enlists f d q id (enlist ps ns (p.node id).name) ps p' := by
  obtain ⟨c, p1, hrun, henlists, hfound, hself⟩ := exists_declaration_eq h ht
  by_cases hmem : (p.node id).name ∈ ns ∨ (p.node id).name ∈ ps
  · rw [enlist, if_pos hmem]
    refine ⟨p1, bind_run hrun ?_, henlists⟩
    rw [if_pos (by simpa using hfound hmem)]
    rfl
  · obtain ⟨p2, hdeclare, hnew⟩ := exists_declareVariable_eq h ht fun hns => hmem (.inl hns)
    obtain ⟨hc, hp⟩ := hself hmem
    rw [hc, hp] at hrun
    rw [enlist, if_neg hmem]
    refine ⟨p2, bind_run hrun ?_, hnew⟩
    have hkind : ((p.node id).kind == .nget || (p.node id).kind == .nset) = false ∧
        (p.node id).kind.isField = false := by
      have := ht.kind
      generalize (p.node id).kind = kind at this ⊢
      cases kind <;> first | exact ⟨rfl, rfl⟩ | cases this
    rw [if_neg (by simp), node_bind, hkind.1, hkind.2]
    exact hdeclare

end

/-! ### Building a block -/

mutual

lemma exists_installItem_enlists : ∀ (tree : Syntax) {p : Project} {parent : Nat}
    {ns : List String}, tree.Local → p.Scope f d q ns ps →
    p.Encloses Kind.boundsFunction f parent → (p.node parent).kind ≠ .struct →
    parent ≠ d ∧ parent ≠ q →
    ∃ p', installItem parent tree p = .ok () p' ∧
      p.Enlists f d q parent ((tree.targets (p.node parent).name).foldl (enlist ps) ns) ps p' ∧
      p'.lookup parent = p.lookup parent
  | .declare, _, _, _, h, _, _, _, _ => h.elim
  | .node head items, p, parent, ns, ⟨hinner, hkind, hitems⟩, h, hencloses, hstruct, hparent => by
    have hlt := hencloses.lt_size
    have hne : ∀ kind, kind.isInner = false → head.kind ≠ kind := by
      rintro kind h rfl
      exact absurd (hinner.symm.trans h) (by decide)
    have hnode := node_make_new (.ofHead head) hlt
    have hgrows : p.Grows (· = parent) (p.make parent (.ofHead head)) := grows_make hlt (.inl rfl)
    have hmade : (p.make parent (.ofHead head)).Scope f d q ns ps := by
      simpa [hparent.1] using h.make (.ofHead head) hlt hparent.2
    have htarget : (p.make parent (.ofHead head)).Target f d q p.size := by
      refine ⟨((h.inside hencloses).make hinner).encloses, ?_, ?_, ?_, ?_⟩ <;>
        rw [hnode]
      · exact hkind
      · exact ⟨rfl, rfl⟩
      · exact ⟨hgrows.lt hlt, hgrows.kind hlt ▸ hstruct⟩
      · exact hparent
    obtain ⟨p', hrun, henlists⟩ := exists_install_enlists items hitems hmade htarget
      ⟨Nat.ne_of_gt h.lt_size.2.1, Nat.ne_of_gt h.lt_size.2.2⟩
    have hlookup : ∀ j < p.size, p'.lookup j = p.lookup j := by
      intro j hj
      rw [henlists.lookup j (hgrows.lt hj) (Nat.ne_of_lt hj)]
      exact apply_node_make (g := fun node => (node.declare?, node.backend)) hlt hj fun _ _ => rfl
    rw [hnode] at henlists
    refine ⟨p', ?_, ⟨henlists.toScope, hgrows.trans henlists.grows ?_, fun j hj _ => hlookup j hj⟩,
      hlookup parent hlt⟩
    · rw [installItem_eq (hne _ rfl) (hne _ rfl)]
      exact hrun
    · rintro j hj rfl
      exact absurd hj (Nat.lt_irrefl _)

lemma exists_install_enlists : ∀ (trees : List Syntax) {p : Project} {parent : Nat}
    {ns : List String}, Syntax.Locals trees → p.Scope f d q ns ps → p.Target f d q parent →
    parent ≠ d ∧ parent ≠ q → ∃ p', install parent trees p = .ok () p' ∧ p.Enlists f d q parent
      ((Syntax.targetsAll (p.node parent).name trees).foldl (enlist ps) ns) ps p'
  | [], p, parent, ns, _, h, _, _ => ⟨p, rfl, h.enlists parent⟩
  | [.declare], p, parent, ns, _, h, ht, _ => by
    obtain ⟨p', hrun, henlists⟩ := exists_declare_eq h ht
    exact ⟨p', bind_ok hrun, henlists⟩
  | .declare :: tree :: rest, p, parent, ns, htrees, _, _, _ => htrees.1.elim
  | .node head items :: rest, p, parent, ns, htrees, h, ht, hparent => by
    have hstruct : (p.node parent).kind ≠ .struct := by
      intro hkind
      have := ht.kind
      rw [hkind] at this
      cases this
    obtain ⟨p1, hitem, henlists, hlookup⟩ := exists_installItem_enlists (.node head items) htrees.1
      h
      ht.encloses hstruct hparent
    obtain ⟨p2, hrest, henlists'⟩ := exists_install_enlists rest htrees.2 henlists.toScope
      (ht.grows henlists.grows hlookup) hparent
    rw [henlists.grows.name ht.encloses.lt_size] at henlists'
    refine ⟨p2, bind_run hitem hrest, ?_⟩
    rw [Syntax.targetsAll, foldl_append]
    exact henlists.trans henlists'

end

/-! ### Functions -/

lemma exists_declareAll_enlists {rs : List Nat} (h : p.Scope f d q ns ps)
    (hrs : ∀ id ∈ rs, p.Target f d q id) (hnodup : rs.Nodup) :
    ∃ p', declareAll rs p = .ok () p' ∧
      p'.Scope f d q ((rs.map fun id => (p.node id).name).foldl (enlist ps) ns) ps := by
  induction rs generalizing p ns with
  | nil => exact ⟨p, rfl, h⟩
  | cons id rs ih =>
    obtain ⟨hid, hnodup⟩ := nodup_cons.1 hnodup
    obtain ⟨p1, hrun, henlists⟩ := exists_declare_eq h (hrs id (.head _))
    have hlt : ∀ j ∈ rs, j < p.size := fun j hj => (hrs j (.tail _ hj)).encloses.lt_size
    obtain ⟨p2, hrest, hscope⟩ := ih henlists.toScope (fun j hj => (hrs j (.tail _ hj)).grows
      henlists.grows (henlists.lookup j (hlt j hj) fun hj' => hid (hj' ▸ hj))) hnodup
    rw [map_congr_left fun j hj => henlists.grows.name (hlt j hj)] at hscope
    exact ⟨p2, bind_run hrun hrest, hscope⟩

/-- A function `[y] = f(a)` with nothing in its block yet. -/
def sampleScope : Project where
  nodes := #[{ kind := .func, name := "f", children := [1, 2, 3] },
    { kind := .declares }, { kind := .returns, children := [4] },
    { kind := .params, children := [5] }, { kind := .var, name := "y", parent := 2 },
    { kind := .var, name := "a", parent := 3 }]

/-- The block with assignments of `x`, `a`, `y` and `x` again. -/
def sampleAssigns : Syntax :=
  .node { kind := .block } (["x", "a", "y", "x"].map fun name =>
    .node { kind := .assign } [.node { kind := .var, name } [.declare], .node { kind := .int } []])

end Edit

end ArmaGen
