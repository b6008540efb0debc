import ArmaGen.Project.Install
import ArmaGen.Proofs.Syntax.Outline

/-!
# Steps of edits
-/

namespace ArmaGen

open List

/-- What a node says about the tree, apart from the nodes below it. -/
def Node.label (node : Node) : Kind × String × String × Nat :=
  (node.kind, node.name, node.value, node.parent)

/-! ### Nodes after a step -/

namespace Project

variable {p p' p'' : Project} {id j : Nat} {f : Node → Node} {node : Node}

def size (p : Project) : Nat :=
  p.nodes.size

def namesBelow (p : Project) (id : Nat) : List String :=
  (p.node id).children.map fun c => (p.node c).name

def update (p : Project) (id : Nat) (f : Node → Node) : Project :=
  { p with nodes := p.nodes.modify id f }

def make (p : Project) (parent : Nat) (node : Node) : Project :=
  { p with nodes := p.nodes.push { node with parent } }.update parent
    fun above => { above with children := above.children ++ [p.size] }

lemma node_congr (h : p'.nodes = p.nodes) : p'.node = p.node := by
  funext id
  rw [node, node, h]

lemma size_update : (p.update id f).size = p.size := by
  simp [size, update]

lemma node_update_self (h : id < p.size) : (p.update id f).node id = f (p.node id) := by
  simp only [node, update, Array.getD_eq_getD_getElem?, Array.getElem?_modify, ite_true,
    Array.getElem?_eq_getElem h, Option.map_some, Option.getD_some]

lemma node_update_of_ne (h : j ≠ id) : (p.update id f).node j = p.node j := by
  simp only [node, update, Array.getD_eq_getD_getElem?, Array.getElem?_modify, if_neg (Ne.symm h)]

lemma node_of_size_le (h : p.size ≤ j) : p.node j = default := by
  simp [node, Array.getElem?_eq_none h]

lemma node_update_of_size_le (h : p.size ≤ j) : (p.update id f).node j = p.node j := by
  rw [node_of_size_le h, node_of_size_le (by rwa [size_update])]

lemma update_of_size_le (h : p.size ≤ id) : p.update id f = p := by
  have hnodes : p.nodes.modify id f = p.nodes := by
    refine Array.ext (Array.size_modify ..) fun i hi _ => ?_
    rw [Array.getElem_modify, if_neg (by unfold size at h; rw [Array.size_modify] at hi; omega)]
  rw [update, hnodes]

lemma apply_node_update {α : Type} {g : Node → α} (hf : ∀ node, g (f node) = g node) :
    g ((p.update id f).node j) = g (p.node j) := by
  rcases Nat.lt_or_ge j p.size with hj | hj
  · by_cases hid : j = id
    · rw [hid, node_update_self (hid ▸ hj), hf]
    · rw [node_update_of_ne hid]
  · rw [node_update_of_size_le hj]

lemma size_make : (p.make id node).size = p.size + 1 := by
  simp [size, make, update]

lemma node_push_of_lt {nodes : Array Node} (h : j < nodes.size) :
    (nodes.push node).getD j default = nodes.getD j default := by
  simp [h, Nat.lt_succ_of_lt h, Array.getElem_push_lt h]

lemma node_make_new (node : Node) (h : id < p.size) :
    (p.make id node).node p.size = { node with parent := id } := by
  unfold make
  rw [node_update_of_ne (Nat.ne_of_gt h)]
  simp [Project.node, size]

lemma node_make_parent (h : id < p.size) :
    (p.make id node).node id = { p.node id with children := (p.node id).children ++ [p.size] } := by
  unfold make
  rw [node_update_self]
  · rw [show Project.node { p with nodes := p.nodes.push { node with parent := id } } id = p.node id
      from node_push_of_lt h]
  · unfold size at h ⊢
    rw [Array.size_push]
    exact Nat.lt_succ_of_lt h

lemma node_make_of_ne (h : j < p.size) (hne : j ≠ id) : (p.make id node).node j = p.node j := by
  unfold make
  rw [node_update_of_ne hne]
  exact node_push_of_lt h

lemma node_make (h : id < p.size) :
    (p.make id node).node j = if j = p.size then { node with parent := id }
      else if j = id then { p.node id with children := (p.node id).children ++ [p.size] }
      else p.node j := by
  split
  case isTrue hj => rw [hj, node_make_new node h]
  case isFalse hj =>
    split
    case isTrue hid => rw [hid, node_make_parent h]
    case isFalse hid =>
      rcases Nat.lt_or_gt_of_ne hj with hlt | hgt
      · exact node_make_of_ne hlt hid
      · rw [node_of_size_le (by rw [size_make]; exact hgt), node_of_size_le (Nat.le_of_lt hgt)]

lemma apply_node_make {α : Type} {g : Node → α} (hid : id < p.size) (hj : j < p.size)
    (hg : ∀ node children, g { node with children } = g node) :
    g ((p.make id node).node j) = g (p.node j) := by
  by_cases hne : j = id
  · rw [hne, node_make_parent hid, hg]
  · rw [node_make_of_ne hj hne]

variable {P : Nat → Node → Prop}

lemma forall_make (hid : id < p.size) (hold : ∀ j < p.size, P j (p.node j))
    (hparent : P id (p.node id) →
      P id { p.node id with children := (p.node id).children ++ [p.size] })
    (hnew : P p.size { node with parent := id }) :
    ∀ j < (p.make id node).size, P j ((p.make id node).node j) := by
  intro j hj
  rw [size_make] at hj
  rcases Nat.lt_succ_iff_lt_or_eq.1 hj with hlt | rfl
  · by_cases hne : j = id
    · rw [hne, node_make_parent hid]
      exact hparent (hold id hid)
    · rw [node_make_of_ne hlt hne]
      exact hold j hlt
  · rwa [node_make_new node hid]

lemma forall_update (hold : ∀ j < p.size, P j (p.node j))
    (hf : id < p.size → P id (p.node id) → P id (f (p.node id))) :
    ∀ j < (p.update id f).size, P j ((p.update id f).node j) := by
  intro j hj
  rw [size_update] at hj
  by_cases hne : j = id
  · subst hne
    rw [node_update_self hj]
    exact hf hj (hold j hj)
  · rw [node_update_of_ne hne]
    exact hold j hj

/-! ### Growth -/

/-- A project grows: nodes are added below nodes that are `open` and declared variables, and those
that are there stay. -/
structure Grows (openAt : Nat → Prop) (p p' : Project) : Prop where
  size_le : p.size ≤ p'.size
  options : p'.options = p.options
  label : ∀ id < p.size, (p'.node id).label = (p.node id).label
  children : ∀ id < p.size, ¬ openAt id → (p.node id).kind ≠ .declares →
    (p'.node id).children = (p.node id).children
  grown : ∀ id < p.size, (p.node id).children <+: (p'.node id).children

namespace Grows

variable {A B : Nat → Prop}

lemma refl (A : Nat → Prop) (p : Project) : p.Grows A p :=
  ⟨.refl, rfl, fun _ _ => rfl, fun _ _ _ _ => rfl, fun _ _ => prefix_rfl⟩

lemma of_nodes_eq (hnodes : p'.nodes = p.nodes) (hoptions : p'.options = p.options) :
    p.Grows A p' := by
  refine ⟨Nat.le_of_eq (congrArg Array.size hnodes.symm), hoptions, ?_, ?_, ?_⟩ <;>
    rw [node_congr hnodes]
  · exact fun _ _ => rfl
  · exact fun _ _ _ _ => rfl
  · exact fun _ _ => prefix_rfl

section

variable (h : p.Grows A p') (hid : id < p.size)

include h hid

lemma lt : id < p'.size :=
  Nat.lt_of_lt_of_le hid h.size_le

lemma kind : (p'.node id).kind = (p.node id).kind :=
  congrArg (·.1) (h.label id hid)

lemma name : (p'.node id).name = (p.node id).name :=
  congrArg (·.2.1) (h.label id hid)

lemma value : (p'.node id).value = (p.node id).value :=
  congrArg (·.2.2.1) (h.label id hid)

lemma parent : (p'.node id).parent = (p.node id).parent :=
  congrArg (·.2.2.2) (h.label id hid)

end

/-- Nodes that are opened later are new or open already. -/
lemma trans (h : p.Grows A p') (h' : p'.Grows B p'') (hopen : ∀ id < p.size, B id → A id) :
    p.Grows A p'' where
  size_le := Nat.le_trans h.size_le h'.size_le
  options := h'.options.trans h.options
  label id hid := (h'.label id (h.lt hid)).trans (h.label id hid)
  children id hid hA hkind := by
    have hid' := h.lt hid
    rw [h'.children id hid' (fun hB => hA (hopen id hid hB)) (by rwa [h.kind hid]),
      h.children id hid hA hkind]
  grown id hid := (h.grown id hid).trans (h'.grown id (h.lt hid))

lemma mono (h : p.Grows A p') (hopen : ∀ id < p.size, A id → B id) : p.Grows B p' :=
  (refl B p).trans h hopen

end Grows

lemma grows_update {A : Nat → Prop}
    (hf : ∀ node, (f node).label = node.label ∧ (f node).children = node.children) :
    p.Grows A (p.update id f) := by
  have hchildren : ∀ j, ((p.update id f).node j).children = (p.node j).children :=
    fun _ => apply_node_update fun node => (hf node).2
  exact ⟨Nat.le_of_eq size_update.symm, rfl, fun _ _ => apply_node_update fun node => (hf node).1,
    fun j _ _ _ => hchildren j, fun j _ => hchildren j ▸ prefix_rfl⟩

lemma grows_make {A : Nat → Prop} (hid : id < p.size)
    (hopen : A id ∨ (p.node id).kind = .declares) : p.Grows A (p.make id node) where
  size_le := by rw [size_make]; omega
  options := rfl
  label j hj := apply_node_make hid hj fun _ _ => rfl
  children j hj hA hkind := by
    have hne : j ≠ id := by
      rintro rfl
      exact hopen.elim hA hkind
    rw [node_make_of_ne hj hne]
  grown j hj := by
    by_cases hne : j = id
    · rw [hne, node_make_parent hid]
      exact prefix_append ..
    · exact node_make_of_ne hj hne ▸ prefix_rfl

/-! ### Outlines of nodes -/

mutual

/-- The node at an address has an outline. Nodes below come after the nodes above them. -/
def Bears (p : Project) (id : Nat) : Outline → Prop
  | .node kind name value below =>
    id < p.size ∧ (p.node id).kind = kind ∧
      (if kind = .assign then "" else (p.node id).name) = name ∧ (p.node id).value = value ∧
      (if kind = .declares then below = [] else BearsAll p id (p.node id).children below)

def BearsAll (p : Project) (above : Nat) (ids : List Nat) : List Outline → Prop
  | [] => ids = []
  | o :: os =>
    ∃ id rest, ids = id :: rest ∧ above < id ∧ (p.node id).parent = above ∧ Bears p id o ∧
      BearsAll p above rest os

end

lemma Bears.lt_size {o : Outline} (h : p.Bears id o) : id < p.size := by
  cases o
  exact h.1

mutual

lemma Bears.grows {A : Nat → Prop} (hg : p.Grows A p') {id : Nat}
    (hopen : ∀ j, A j → j < id) : ∀ o : Outline, p.Bears id o → p'.Bears id o
  | .node kind name value below, ⟨hid, hkind, hname, hvalue, hbelow⟩ => by
    refine ⟨hg.lt hid, ?_, ?_, ?_, ?_⟩
    · rw [hg.kind hid, hkind]
    · rw [hg.name hid, hname]
    · rw [hg.value hid, hvalue]
    · by_cases hdeclares : kind = .declares
      · rw [if_pos hdeclares] at hbelow ⊢
        exact hbelow
      · rw [if_neg hdeclares] at hbelow ⊢
        rw [hg.children id hid (fun hA => Nat.lt_irrefl _ (hopen id hA)) (by rwa [hkind])]
        exact hbelow.grows hg (fun k _ hk j hj => Nat.lt_trans (hopen j hj) hk) below

lemma BearsAll.grows {A : Nat → Prop} (hg : p.Grows A p') {above : Nat}
    {ids : List Nat} (hopen : ∀ id ∈ ids, above < id → ∀ j, A j → j < id) :
    ∀ os : List Outline, p.BearsAll above ids os → p'.BearsAll above ids os
  | [], h => h
  | o :: os, ⟨id, rest, hids, hlt, hparent, ho, hos⟩ => by
    subst hids
    exact ⟨id, rest, rfl, hlt, (hg.parent ho.lt_size).trans hparent,
      ho.grows hg (hopen id (.head _) hlt) o,
      hos.grows hg (fun k hk => hopen k (.tail _ hk)) os⟩

end

lemma bearsAll_append {above : Nat} {ids ids' : List Nat} {os os' : List Outline}
    (h : p.BearsAll above ids os) (h' : p.BearsAll above ids' os') :
    p.BearsAll above (ids ++ ids') (os ++ os') := by
  induction os generalizing ids with
  | nil =>
    obtain rfl : ids = [] := h
    exact h'
  | cons o os ih =>
    obtain ⟨id, rest, rfl, hlt, hparent, ho, hos⟩ := h
    exact ⟨id, rest ++ ids', rfl, hlt, hparent, ho, ih hos⟩

/-- The outline of a node, down to depth `n`. -/
def outlineSteps (p : Project) : Nat → Nat → Outline
  | 0, _ => default
  | n + 1, id =>
    let node := p.node id
    .node node.kind (if node.kind = .assign then "" else node.name) node.value
      (if node.kind = .declares then [] else node.children.map (outlineSteps p n))

/-- The outline of a node: the kinds, names and values at and below it. -/
def outline (p : Project) (id : Nat) : Outline :=
  p.outlineSteps (p.size + 1) id

mutual

lemma Bears.outlineSteps_eq {id : Nat} {n : Nat} (hn : p.size ≤ n + id) :
    ∀ o : Outline, p.Bears id o → p.outlineSteps n id = o
  | .node kind name value below, ⟨hid, hkind, hname, hvalue, hbelow⟩ => by
    rcases n with _ | n
    · omega
    subst hkind hname hvalue
    rw [outlineSteps]
    by_cases hdeclares : (p.node id).kind = .declares
    · rw [if_pos hdeclares] at hbelow
      simp only [if_pos hdeclares, hbelow]
    · rw [if_neg hdeclares] at hbelow
      simp only [if_neg hdeclares, hbelow.outlineSteps_eq (n := n) (by omega) below]

lemma BearsAll.outlineSteps_eq {above : Nat} {n : Nat} (hn : p.size ≤ n + 1 + above) :
    ∀ (os : List Outline) {ids : List Nat}, p.BearsAll above ids os →
      ids.map (p.outlineSteps n) = os
  | [], _, h => by rw [show _ = [] from h]; rfl
  | o :: os, _, ⟨id, rest, hids, hlt, _, ho, hos⟩ => by
    rw [hids, map_cons, ho.outlineSteps_eq (by omega) o, hos.outlineSteps_eq hn os]

end

lemma Bears.outline_eq {o : Outline} (h : p.Bears id o) : p.outline id = o :=
  h.outlineSteps_eq (by omega) o

/-! ### Nodes below a node -/

/-- A node is another one, or stands somewhere below it. -/
inductive Below (p : Project) (top : Nat) : Nat → Prop where
  | self : Below p top top
  | child {id c : Nat} (h : Below p top id) (hc : c ∈ (p.node id).children) : Below p top c

variable {top : Nat} {backwards : Bool}

lemma Below.trans {mid : Nat} (h : p.Below top mid) (h' : p.Below mid id) : p.Below top id := by
  induction h' with
  | self => exact h
  | child _ hc ih => exact ih.child hc

lemma Below.lt (h : p.Below top id)
    (hchild : ∀ id, top ≤ id → id < p.size → ∀ c : Nat, c ∈ (p.node id).children →
      id < c ∧ c < p.size)
    (htop : top < p.size) : top ≤ id ∧ id < p.size := by
  induction h with
  | self => exact ⟨.refl, htop⟩
  | @child mid c _ hc ih =>
    have := hchild mid ih.1 ih.2 c hc
    omega

lemma Below.eq_or (h : p.Below top id) :
    id = top ∨ ∃ c : Nat, c ∈ (p.node top).children ∧ p.Below c id := by
  induction h with
  | self => exact .inl rfl
  | child _ hc ih =>
    rcases ih with rfl | ⟨d, hd, hbelow⟩
    · exact .inr ⟨_, hc, .self⟩
    · exact .inr ⟨d, hd, hbelow.child hc⟩

lemma lt_size_of_mem {c : Nat} (h : c ∈ (p.node id).children) : id < p.size :=
  Nat.lt_of_not_ge fun hge => by
    rw [node_of_size_le hge] at h
    cases h

lemma childrenIn_not : p.childrenIn (!backwards) id = (p.childrenIn backwards id).reverse := by
  cases backwards <;> simp [childrenIn]

lemma mem_childrenIn {c : Nat} : c ∈ p.childrenIn backwards id ↔ c ∈ (p.node id).children := by
  unfold childrenIn
  split
  · exact mem_reverse
  · exact Iff.rfl

lemma below_of_mem_postorderSteps {n : Nat} (h : id ∈ p.postorderSteps backwards n top) :
    p.Below top id := by
  induction n generalizing top with
  | zero => cases h
  | succ n ih =>
    rcases mem_append.mp h with h | h
    · obtain ⟨c, hc, hid⟩ := mem_flatMap.mp h
      exact (Below.self.child (mem_childrenIn.mp hc)).trans (ih hid)
    · rw [mem_singleton.mp h]
      exact .self

/-- Going over a node before those below it is going over it after them, backwards. -/
lemma preorderSteps_eq_reverse (n id : Nat) :
    p.preorderSteps backwards n id = (p.postorderSteps (!backwards) n id).reverse := by
  induction n generalizing id with
  | zero => rfl
  | succ n ih =>
    rw [preorderSteps, postorderSteps, reverse_append, reverse_flatMap, childrenIn_not,
      reverse_reverse,
      funext ih]
    rfl

lemma below_of_mem_preorderSteps {n : Nat} (h : id ∈ p.preorderSteps backwards n top) :
    p.Below top id := by
  rw [preorderSteps_eq_reverse, mem_reverse] at h
  exact below_of_mem_postorderSteps h

end Project

end ArmaGen
