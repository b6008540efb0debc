import ArmaGen.Proofs.Project.Store
import ArmaGen.Proofs.Syntax.Aside

/-!
# Projects without some nodes

`p.Sheds cut p'` says that `p'` is the project `p` without the nodes of some kinds: the nodes that
are left are numbered anew, in the same order (`Project.rank`). What is known of the shape of `p` is
part of it (`Project.Sound`): nodes come after the nodes above them, and nodes that are dropped
stand in blocks only. All of this is said of the nodes from one on, so that the last program of a
project can be looked at alone (`Cut`).
-/

namespace ArmaGen

open List

def Kind.programParts : List Kind :=
  [.includes, .funcs, .inlines, .structs, .headers, .log]

/-- What may stand below a node of a kind, as far as nodes have been made. -/
def Kind.Permits (drops : Kind → Bool) : Kind → List Kind → Prop
  | .project, ks => ∀ k ∈ ks, k = .program
  | .program, ks => ks <+: programParts
  | .structs, ks => ∀ k ∈ ks, k = .struct
  | .func, ks | .main, ks => ks <+: funcParts
  | .block, _ => True
  | _, ks => ∀ k ∈ ks, drops k = false

/-- The kinds of nodes below which nodes are made while others are read. -/
def Kind.isGrowing : Kind → Bool
  | .declares | .includes | .structs | .struct | .funcs | .headers => true
  | _ => false

variable {drops : Kind → Bool} {kind : Kind} {xs ys : List Kind}

lemma Kind.Permits.keeps (hdrops : ∀ kind, drops kind = true → kind.isAside = true)
    {ks : List Kind} (h : kind.Permits drops ks) (hkind : kind ≠ .block) :
    ∀ k ∈ ks, drops k = false := by
  intro k hk
  refine Bool.eq_false_iff.2 fun hdrop => ?_
  have haside := hdrops k hdrop
  have hlist : ∀ {ks' : List Kind}, ks <+: ks' → (∀ k ∈ ks', k.isAside = false) → False := by
    intro ks' hparts hks'
    rw [hks' k (hparts.subset hk)] at haside
    cases haside
  cases kind <;> first
    | exact hkind rfl
    | exact hlist h (by decide)
    | rw [h k hk] at haside; cases haside
    | rw [h k hk] at hdrop; cases hdrop

lemma Kind.Permits.of_append (h : kind.Permits drops (xs ++ ys)) : kind.Permits drops xs := by
  cases kind <;> first
    | exact (forall_mem_append.1 h).1
    | exact (prefix_append xs ys).trans h
    | trivial

lemma Kind.Permits.of_func (h : kind.Permits drops (xs ++ (.func :: ys))) :
    kind.Permits drops (xs ++ ys) := by
  have hlist : ∀ {ks : List Kind}, xs ++ (.func :: ys) <+: ks → func ∈ ks := fun hks =>
    hks.subset (mem_append_right xs (.head _))
  cases kind <;> first
    | exact forall_mem_append.2 ⟨(forall_mem_append.1 h).1,
        (forall_mem_cons.1 (forall_mem_append.1 h).2).2⟩
    | exact absurd (hlist h) (by decide)
    | trivial

lemma Kind.Permits.filter {zs : List Kind} (h : kind.Permits drops (xs ++ (ys ++ zs))) :
    kind.Permits drops (xs ++ (ys.filter (· != .func) ++ zs)) := by
  induction ys generalizing xs with
  | nil => exact h
  | cons y ys ih =>
    by_cases hy : y = .func
    · subst hy
      exact ih h.of_func
    · have hkeep : ((y :: ys).filter (· != .func)) = y :: ys.filter (· != .func) :=
        filter_cons_of_pos (by simpa using hy)
      have hnext := @ih (xs ++ [y]) (by rw [append_assoc]; exact h)
      rw [append_assoc] at hnext
      rw [hkeep]
      exact hnext

lemma Kind.permits_append (h : kind.isGrowing = true) :
    kind.Permits drops (xs ++ ys) ↔ kind.Permits drops xs ∧ kind.Permits drops ys := by
  cases kind <;> first | exact forall_mem_append | cases h

/-- The name of a program, and its unknown names once they have been found. -/
def Node.listing (node : Node) : String × Option (List String) :=
  (node.name, node.unassigned?)

/-- What is looked at of a project: the nodes from one on, and of them those that are not of some
kinds. -/
structure Cut where
  drops : Kind → Bool
  base : Nat

abbrev Cut.whole (base : Nat) : Cut :=
  ⟨fun _ => false, base⟩

namespace Project

variable (cut : Cut) (p : Project)

/-! ### Numbers -/

def keeps (id : Nat) : Bool :=
  !cut.drops (p.node id).kind

/-- The number of nodes before an address that are kept: the address of the node among them. -/
def rank : Nat → Nat
  | 0 => 0
  | id + 1 => rank id + if p.keeps cut id then 1 else 0

/-- A node with addresses among the nodes that are kept. -/
def renumber (node : Node) : Node :=
  { node with
    parent := p.rank cut node.parent
    children := (node.children.filter (p.keeps cut)).map (p.rank cut)
    foundGroup? := node.foundGroup?.map (p.rank cut)
    declare? := node.declare?.map (p.rank cut)
    reference? := node.reference?.map (p.rank cut) }

def kindsBelow (id : Nat) : List Kind :=
  (p.node id).children.map fun c => (p.node c).kind

/-- Nodes of some kinds may be made below a node. -/
abbrev Admits (id : Nat) (ks : List Kind) : Prop :=
  (p.node id).kind.Permits cut.drops (p.kindsBelow id ++ ks)

variable {cut p} {q : Project} {i j id : Nat}

lemma rank_mono (h : i ≤ j) : p.rank cut i ≤ p.rank cut j := by
  induction h with
  | refl => exact .refl
  | step _ ih => exact Nat.le_trans ih (Nat.le_add_right ..)

lemma rank_lt_rank (hi : p.keeps cut i = true) (h : i < j) : p.rank cut i < p.rank cut j := by
  have hsucc : p.rank cut (i + 1) = p.rank cut i + 1 := by rw [rank, if_pos hi]
  have hle : p.rank cut (i + 1) ≤ p.rank cut j := rank_mono h
  omega

lemma rank_inj (hi : p.keeps cut i = true) (hj : p.keeps cut j = true)
    (h : p.rank cut i = p.rank cut j) : i = j := by
  rcases Nat.lt_trichotomy i j with hlt | rfl | hlt
  · exact absurd h (Nat.ne_of_lt (rank_lt_rank hi hlt))
  · rfl
  · exact absurd h.symm (Nat.ne_of_lt (rank_lt_rank hj hlt))

lemma rank_congr (h : ∀ i < id, q.keeps cut i = p.keeps cut i) : q.rank cut id = p.rank cut id := by
  induction id with
  | zero => rfl
  | succ id ih =>
    rw [rank, rank, ih fun i hi => h i (Nat.lt_succ_of_lt hi), h id (Nat.lt_succ_self _)]

/-- What a node refers to is there. -/
structure Refers (n : Nat) (node : Node) : Prop where
  parent : node.parent < n
  children : ∀ c ∈ node.children, c < n
  group : node.foundGroup? = none
  declare : ∀ d ∈ node.declare?, d < n
  reference : ∀ d ∈ node.reference?, d < n

lemma renumber_congr {n : Nat} (h : ∀ i < n, q.keeps cut i = p.keeps cut i) {node : Node}
    (hnode : Refers n node) : q.renumber cut node = p.renumber cut node := by
  have hrank : ∀ i < n, q.rank cut i = p.rank cut i := fun i hi =>
    rank_congr fun j hj => h j (Nat.lt_trans hj hi)
  have hmap : ∀ i? : Option Nat, (∀ i ∈ i?, i < n) →
      i?.map (q.rank cut) = i?.map (p.rank cut) := by
    intro i? hi
    cases i? with
    | none => rfl
    | some i => exact congrArg some (hrank i (hi i rfl))
  have hfilter : node.children.filter (q.keeps cut) = node.children.filter (p.keeps cut) :=
    filter_congr fun c hc => h c (hnode.children c hc)
  have hchildren : (node.children.filter (q.keeps cut)).map (q.rank cut) =
      (node.children.filter (p.keeps cut)).map (p.rank cut) := by
    rw [hfilter]
    exact map_congr_left fun c hc => hrank c (hnode.children c (mem_filter.1 hc).1)
  simp [renumber, hrank _ hnode.parent, hchildren, hmap _ hnode.declare, hmap _ hnode.reference,
    hnode.group]

/-! ### Shapes -/

/-- A node that is looked at. -/
abbrev Spans (cut : Cut) (p : Project) (id : Nat) : Prop :=
  cut.base ≤ id ∧ id < p.size

/-- What is known of the shape of a project, or of the last one of its programs. -/
structure Sound (cut : Cut) (p : Project) : Prop where
  pos : cut.base < p.size
  top : (p.node cut.base).kind = (if cut.base = 0 then .project else .program) ∧
    (p.node cut.base).parent = 0
  only : ∀ id, p.Spans cut id → (p.node id).kind = .project → id = 0
  parent : ∀ id, cut.base < id → id < p.size →
    (cut.base ≤ (p.node id).parent ∧ (p.node id).parent < id) ∧
      id ∈ (p.node (p.node id).parent).children ∧ p.keeps cut (p.node id).parent = true
  child : ∀ id, p.Spans cut id → ∀ c ∈ (p.node id).children,
    id < c ∧ c < p.size ∧ (p.node c).parent = id
  group : ∀ id, p.Spans cut id → (p.node id).foundGroup? = none
  declare : ∀ id, p.Spans cut id → ∀ d ∈ (p.node id).declare?, p.Spans cut d ∧ p.keeps cut d = true
  reference : ∀ id, p.Spans cut id → ∀ d ∈ (p.node id).reference?,
    p.Spans cut d ∧ p.keeps cut d = true
  below : ∀ id, p.Spans cut id → (p.node id).kind.Permits cut.drops (p.kindsBelow id)

lemma Sound.root (h : p.Sound cut) (hbase : cut.base = 0) :
    (p.node 0).kind = .project ∧ (p.node 0).parent = 0 := by
  have htop := h.top
  rwa [hbase] at htop

lemma Sound.spans_child (h : p.Sound cut) (hid : p.Spans cut id) {c : Nat}
    (hc : c ∈ (p.node id).children) : p.Spans cut c :=
  have ⟨hlt, hsize, _⟩ := h.child id hid c hc
  ⟨Nat.le_trans hid.1 (Nat.le_of_lt hlt), hsize⟩

lemma Sound.refers (h : p.Sound cut) (hid : p.Spans cut id) : Refers p.size (p.node id) where
  parent := by
    rcases Nat.eq_or_lt_of_le hid.1 with rfl | hlt
    · rw [h.top.2]
      exact Nat.zero_lt_of_lt hid.2
    · exact Nat.lt_trans (h.parent id hlt hid.2).1.2 hid.2
  children c hc := (h.child id hid c hc).2.1
  group := h.group id hid
  declare d hd := (h.declare id hid d hd).1.2
  reference d hd := (h.reference id hid d hd).1.2

/-- `p'` is `p` without the nodes of some kinds. -/
structure Sheds (cut : Cut) (p p' : Project) : Prop where
  asides : ∀ kind, cut.drops kind = true → kind.isAside = true
  sound : p.Sound cut
  size : p'.size = p.rank cut p.size
  node : ∀ id, p.Spans cut id → p.keeps cut id = true →
    p'.node (p.rank cut id) = p.renumber cut (p.node id)

/-- A node that is kept, and its address among those that are. -/
structure Stands (cut : Cut) (p : Project) (id id' : Nat) : Prop where
  spans : p.Spans cut id
  keeps : p.keeps cut id = true
  rank : id' = p.rank cut id

variable {p' : Project} {id' : Nat}

lemma Stands.lt (hid : p.Stands cut id id') : id < p.size :=
  hid.spans.2

lemma Sheds.node_eq (h : p.Sheds cut p') (hid : p.Stands cut id id') :
    p'.node id' = p.renumber cut (p.node id) := by
  rw [hid.rank, h.node id hid.spans hid.keeps]

lemma Sheds.lt_size (h : p.Sheds cut p') (hid : p.Stands cut id id') : id' < p'.size := by
  rw [h.size, hid.rank]
  exact rank_lt_rank hid.keeps hid.lt

lemma Stands.beq_eq {j' : Nat} (hid : p.Stands cut id id') (hj : p.Stands cut j j') :
    (id == j) = (id' == j') := by
  rw [hid.rank, hj.rank, Bool.eq_iff_iff, beq_iff_eq, beq_iff_eq]
  exact ⟨fun h => by rw [h], rank_inj hid.keeps hj.keeps⟩

lemma Sheds.of_nodes_eq {q' : Project} (h : p.Sheds cut p') (hq : q.nodes = p.nodes)
    (hq' : q'.nodes = p'.nodes) : q.Sheds cut q' := by
  have hsize : q.size = p.size := congrArg Array.size hq
  have hsize' : q'.size = p'.size := congrArg Array.size hq'
  have hnode := node_congr hq
  have hnode' := node_congr hq'
  have hkeeps : q.keeps cut = p.keeps cut := by
    funext id
    rw [keeps, keeps, hnode]
  have hrank : q.rank cut = p.rank cut := by
    funext id
    exact rank_congr fun i _ => congrFun hkeeps i
  have hrenumber : q.renumber cut = p.renumber cut := by
    funext node
    simp [renumber, hkeeps, hrank]
  have hbelow : q.kindsBelow = p.kindsBelow := by
    funext id
    simp [kindsBelow, hnode]
  obtain ⟨hasides, ⟨hpos, htop, honly, hparent, hchild, hgroup, hdeclare, hreference, hpermits⟩,
    hranks, hnodes⟩ := h
  constructor
  · exact hasides
  · constructor <;> simpa only [Spans, hsize, hnode, hkeeps, hbelow]
  · rw [hsize, hsize', hrank, hranks]
  · simpa only [Spans, hsize, hnode, hnode', hkeeps, hrank, hrenumber]

/-- The place of the root is known. -/
def Placed (p : Project) : Prop :=
  (p.node 0).cur?.isSome = true ∧ (p.node 0).code?.isSome = true

def settings (p : Project) : Options × Bool × Nat × Directory :=
  (p.options, p.configured, p.depth, p.directory)

/-- How a project has changed: nodes keep their kinds, and all that is not looked at stays. -/
structure Alters (cut : Cut) (p q : Project) : Prop where
  settings : q.settings = p.settings
  size_le : p.size ≤ q.size
  kind : ∀ id < p.size, (q.node id).kind = (p.node id).kind
  old : ∀ id < cut.base, q.node id = p.node id
  top : 0 < cut.base → (q.node cut.base).listing = (p.node cut.base).listing
  placed : p.Placed → q.Placed

lemma Alters.of_nodes_eq (hnodes : q.nodes = p.nodes) (hsettings : q.settings = p.settings) :
    p.Alters cut q := by
  have hnode := node_congr hnodes
  refine ⟨hsettings, Nat.le_of_eq (congrArg Array.size hnodes).symm, ?_, ?_, ?_, ?_⟩ <;>
    simp [hnode, Placed]

lemma Alters.trans {r : Project} (h : p.Alters cut q) (h' : q.Alters cut r) : p.Alters cut r where
  settings := h'.settings.trans h.settings
  size_le := Nat.le_trans h.size_le h'.size_le
  kind id hid := (h'.kind id (Nat.lt_of_lt_of_le hid h.size_le)).trans (h.kind id hid)
  old id hid := (h'.old id hid).trans (h.old id hid)
  top hpos := (h'.top hpos).trans (h.top hpos)
  placed hp := h'.placed (h.placed hp)

/-- Where nodes are made, and whether some of them may be dropped. -/
structure Growth where
  opened : Bool
  above : Nat

/-- Besides, most nodes keep the nodes below them; unless `opened` all new nodes are kept. -/
structure Extends (cut : Cut) (g : Growth) (p q : Project) : Prop extends
    Alters cut p q where
  keeps : g.opened = false → ∀ id, p.size ≤ id → id < q.size → q.keeps cut id = true
  frame : ∀ id < p.size, id ≠ g.above → (p.node id).kind.isGrowing = false →
    (q.node id).children = (p.node id).children

variable {g : Growth} {r : Project}

lemma Extends.of_nodes_eq (hnodes : q.nodes = p.nodes) (hsettings : q.settings = p.settings) :
    p.Extends cut g q := by
  have hsize : q.size = p.size := congrArg Array.size hnodes
  refine ⟨.of_nodes_eq hnodes hsettings, fun _ id hle hlt => ?_, fun id _ _ _ => ?_⟩
  · rw [hsize] at hlt
    exact absurd hlt (Nat.not_lt.2 hle)
  · rw [node_congr hnodes]

lemma Extends.refl : p.Extends cut g p :=
  .of_nodes_eq rfl rfl

variable {above' : Nat}

lemma Extends.trans (h : p.Extends cut g q) (h' : q.Extends cut ⟨g.opened, above'⟩ r)
    (habove : above' = g.above ∨ p.size ≤ above') :
    p.Extends cut g r where
  toAlters := h.toAlters.trans h'.toAlters
  keeps hopened id hle hlt := by
    by_cases hq : id < q.size
    · have hkind := h'.kind id hq
      have hkeeps := h.keeps hopened id hle hq
      rw [Project.keeps] at hkeeps ⊢
      rwa [hkind]
    · exact h'.keeps hopened id (Nat.not_lt.1 hq) hlt
  frame id hid hne hkind := by
    have hq := Nat.lt_of_lt_of_le hid h.size_le
    have hne' : id ≠ above' := by
      rintro rfl
      rcases habove with rfl | hle
      · exact hne rfl
      · exact absurd hid (Nat.not_lt.2 hle)
    rw [h'.frame id hq hne' (by rwa [h.kind id hid]), h.frame id hid hne hkind]

lemma Extends.elsewhere (h : p.Extends cut ⟨g.opened, above'⟩ q) (habove : p.size ≤ above') :
    p.Extends cut g q :=
  Extends.refl.trans h (.inr habove)

lemma Extends.of_isGrowing (h : p.Extends cut ⟨g.opened, above'⟩ q)
    (hgrows : (p.node above').kind.isGrowing = true) : p.Extends cut g q := by
  refine ⟨h.toAlters, h.keeps, fun id hid _ hkind => h.frame id hid ?_ hkind⟩
  rintro rfl
  rw [hgrows] at hkind
  cases hkind

lemma Extends.of_closed (h : p.Extends cut ⟨false, g.above⟩ q) : p.Extends cut g q :=
  ⟨h.toAlters, fun _ => h.keeps rfl, h.frame⟩

lemma Alters.keeps_eq (h : p.Alters cut q) (hid : id < p.size) :
    q.keeps cut id = p.keeps cut id := by
  rw [keeps, keeps, h.kind id hid]

lemma Stands.extends (hid : p.Stands cut id id') (h : p.Extends cut g q) : q.Stands cut id id' where
  spans := ⟨hid.spans.1, Nat.lt_of_lt_of_le hid.lt h.size_le⟩
  keeps := (h.keeps_eq hid.lt).trans hid.keeps
  rank := by
    rw [hid.rank, rank_congr fun i hi => h.keeps_eq (Nat.lt_trans hi hid.lt)]

/-- What may still be made below a node stays so while nodes are made elsewhere. -/
lemma Extends.kindsBelow_eq (h : p.Extends cut g q) (hp : p.Sound cut)
    (hid : p.Spans cut id) (hne : id ≠ g.above) (hgrows : (p.node id).kind.isGrowing = false) :
    q.kindsBelow id = p.kindsBelow id := by
  rw [kindsBelow, h.frame id hid.2 hne hgrows]
  exact map_congr_left fun c hc => h.kind c (hp.child id hid c hc).2.1

/-! ### Changes of a node -/

section Update

variable {f : Node → Node}

/-- A change of a node that leaves the tree as it is, and its place known if it was. -/
structure Mild (f : Node → Node) (node : Node) : Prop where
  kind : (f node).kind = node.kind
  parent : (f node).parent = node.parent
  children : (f node).children = node.children
  cur : node.cur?.isSome = true → (f node).cur?.isSome = true
  code : node.code?.isSome = true → (f node).code?.isSome = true

/-- A change of what is known about a node, but not of what it refers to. -/
structure Modest (f : Node → Node) : Prop where
  mild : ∀ node, Mild f node
  group : ∀ node, (f node).foundGroup? = node.foundGroup?
  declare : ∀ node, (f node).declare? = node.declare?
  reference : ∀ node, (f node).reference? = node.reference?
  renumber : ∀ (cut : Cut) (p : Project) (node : Node),
    f (p.renumber cut node) = p.renumber cut (f node)

section

variable (hf : Mild f (p.node id))

include hf

lemma mild_update (j : Nat) : Mild (fun _ => (p.update id f).node j) (p.node j) := by
  by_cases hid : id < p.size
  · by_cases hj : j = id
    · subst hj
      rw [node_update_self hid]
      exact ⟨hf.kind, hf.parent, hf.children, hf.cur, hf.code⟩
    · rw [node_update_of_ne hj]
      exact ⟨rfl, rfl, rfl, fun h => h, fun h => h⟩
  · rw [update_of_size_le (Nat.not_lt.1 hid)]
    exact ⟨rfl, rfl, rfl, fun h => h, fun h => h⟩

lemma keeps_update : (p.update id f).keeps cut = p.keeps cut := by
  funext j
  rw [keeps, keeps, (mild_update hf j).kind]

lemma rank_update : (p.update id f).rank cut = p.rank cut := by
  funext j
  exact rank_congr fun i _ => congrFun (keeps_update hf) i

lemma renumber_update : (p.update id f).renumber cut = p.renumber cut := by
  funext node
  simp [renumber, rank_update hf, keeps_update hf]

lemma extends_update (hid : p.Spans cut id)
    (hlisting : 0 < cut.base → (f (p.node id)).listing = (p.node id).listing) :
    p.Extends cut g (p.update id f) where
  settings := rfl
  size_le := Nat.le_of_eq size_update.symm
  kind j _ := (mild_update hf j).kind
  old j hj := node_update_of_ne (Nat.ne_of_lt (Nat.lt_of_lt_of_le hj hid.1))
  top hpos := by
    by_cases heq : cut.base = id
    · rw [heq, node_update_self hid.2, hlisting hpos]
    · rw [node_update_of_ne heq]
  keeps _ j hle hlt := by
    rw [size_update] at hlt
    exact absurd hlt (Nat.not_lt.2 hle)
  frame j _ _ _ := (mild_update hf j).children
  placed hplaced := ⟨(mild_update hf 0).cur hplaced.1, (mild_update hf 0).code hplaced.2⟩

end

/-- What the changed node recalls is there. -/
structure Recalls (cut : Cut) (p : Project) (node : Node) : Prop where
  group : node.foundGroup? = none
  declare : ∀ d ∈ node.declare?, p.Spans cut d ∧ p.keeps cut d = true
  reference : ∀ d ∈ node.reference?, p.Spans cut d ∧ p.keeps cut d = true

lemma Sound.recalls (h : p.Sound cut) (hid : p.Spans cut id) : Recalls cut p (p.node id) :=
  ⟨h.group id hid, h.declare id hid, h.reference id hid⟩

lemma Modest.recalls (hf : Modest f) {node : Node} (h : Recalls cut p node) :
    Recalls cut p (f node) := by
  refine ⟨(hf.group node).trans h.group, ?_, ?_⟩
  · rw [hf.declare]
    exact h.declare
  · rw [hf.reference]
    exact h.reference

lemma Sound.update (h : p.Sound cut) (hf : Mild f (p.node id))
    (hrecalls : Recalls cut p (f (p.node id))) : (p.update id f).Sound cut := by
  have hnode : ∀ j < (p.update id f).size, cut.base ≤ j → Recalls cut p ((p.update id f).node j) :=
    forall_update (P := fun j new => cut.base ≤ j → Recalls cut p new)
      (fun _ hj hle => h.recalls ⟨hle, hj⟩) fun _ _ _ => hrecalls
  have hkind := fun j => (mild_update hf j).kind
  have hparent := fun j => (mild_update hf j).parent
  have hchildren := fun j => (mild_update hf j).children
  rw [size_update] at hnode
  constructor <;>
    simp only [Spans, size_update, hkind, hparent, hchildren, keeps_update hf, kindsBelow]
  · exact h.pos
  · exact h.top
  · exact h.only
  · exact h.parent
  · exact h.child
  · exact fun j hj => (hnode j hj.2 hj.1).group
  · exact fun j hj => (hnode j hj.2 hj.1).declare
  · exact fun j hj => (hnode j hj.2 hj.1).reference
  · exact h.below

lemma Sheds.update {f' : Node → Node} (h : p.Sheds cut p') (hid : p.Stands cut id id')
    (hf : Mild f (p.node id)) (hrecalls : Recalls cut p (f (p.node id)))
    (hf' : f' (p.renumber cut (p.node id)) = p.renumber cut (f (p.node id))) :
    (p.update id f).Sheds cut (p'.update id' f') where
  asides := h.asides
  sound := h.sound.update hf hrecalls
  size := by rw [size_update, size_update, rank_update hf, h.size]
  node j hj hkeeps := by
    rw [Spans, size_update] at hj
    rw [keeps_update hf] at hkeeps
    rw [rank_update hf, renumber_update hf]
    by_cases hne : j = id
    · subst hne
      rw [← hid.rank, node_update_self (h.lt_size hid), node_update_self hj.2, h.node_eq hid, hf']
    · have hne' : p.rank cut j ≠ id' := by
        rw [hid.rank]
        exact fun heq => hne (rank_inj hkeeps hid.keeps heq)
      rw [node_update_of_ne hne', node_update_of_ne hne, h.node j hj hkeeps]

lemma Sheds.update_dropped (h : p.Sheds cut p') (hdrop : p.keeps cut id = false)
    (hf : Mild f (p.node id)) (hrecalls : Recalls cut p (f (p.node id))) :
    (p.update id f).Sheds cut p' where
  asides := h.asides
  sound := h.sound.update hf hrecalls
  size := by rw [size_update, rank_update hf, h.size]
  node j hj hkeeps := by
    rw [Spans, size_update] at hj
    rw [keeps_update hf] at hkeeps
    have hne : j ≠ id := by
      rintro rfl
      rw [hdrop] at hkeeps
      cases hkeeps
    rw [rank_update hf, renumber_update hf, node_update_of_ne hne, h.node j hj hkeeps]

end Update

/-! ### New nodes -/

section Make

variable {node : Node} {above above' : Nat}

/-- A node of a program that refers to nothing yet. -/
structure Fresh (node : Node) : Prop where
  kind : node.kind ≠ .project
  children : node.children = []
  group : node.foundGroup? = none
  declare : node.declare? = none
  reference : node.reference? = none

lemma fresh_mk {kind : Kind} (h : kind ≠ .project) {name value : String} {pointer : Int}
    {line? cur? : Option Int} {code? : Option String} :
    Fresh { kind, name, value, pointer, line?, cur?, code? } :=
  ⟨h, rfl, rfl, rfl, rfl⟩

section

variable (habove : above < p.size)

include habove

lemma kind_make_of_lt (hj : j < p.size) : ((p.make above node).node j).kind = (p.node j).kind :=
  apply_node_make habove hj fun _ _ => rfl

lemma keeps_make_of_lt (hj : j < p.size) : (p.make above node).keeps cut j = p.keeps cut j := by
  rw [keeps, keeps, kind_make_of_lt habove hj]

lemma keeps_make_new : (p.make above node).keeps cut p.size = !cut.drops node.kind := by
  rw [keeps, node_make_new node habove]

lemma rank_make_of_le (hj : j ≤ p.size) : (p.make above node).rank cut j = p.rank cut j :=
  rank_congr fun _ hi => keeps_make_of_lt habove (Nat.lt_of_lt_of_le hi hj)

end

lemma renumber_make (node : Node) (habove : above < p.size) {other : Node}
    (hother : Refers p.size other) :
    (p.make above node).renumber cut other = p.renumber cut other :=
  renumber_congr (fun _ => keeps_make_of_lt habove) hother

lemma kindsBelow_make_above (h : p.Sound cut) (habove : p.Spans cut above) :
    (p.make above node).kindsBelow above = p.kindsBelow above ++ [node.kind] := by
  rw [kindsBelow, node_make_parent habove.2, map_append, map_singleton, node_make_new node habove.2]
  congr 1
  exact map_congr_left fun c hc => kind_make_of_lt habove.2 (h.child above habove c hc).2.1

lemma permits_nil (kind : Kind) : kind.Permits cut.drops [] := by
  cases kind <;> first | exact nil_prefix | exact trivial | exact fun _ hk => nomatch hk

/-- What is said of all nodes is shown for the old ones, the one above and the new one. -/
lemma Sound.make (h : p.Sound cut) (hspans : p.Spans cut above)
    (hkeeps : p.keeps cut above = true) (hfresh : Fresh node)
    (hpermits : Admits cut p above [node.kind]) :
    (p.make above node).Sound cut := by
  obtain ⟨hle, habove⟩ := hspans
  have hkind : ∀ j < p.size, ((p.make above node).node j).kind = (p.node j).kind :=
    fun _ => kind_make_of_lt habove
  have hparent : ∀ j < p.size, ((p.make above node).node j).parent = (p.node j).parent :=
    fun _ hj => apply_node_make habove hj fun _ _ => rfl
  have hlt : ∀ {j}, j < p.size → j < (p.make above node).size := by
    rw [size_make]
    omega
  have hkept : ∀ {d}, p.Spans cut d ∧ p.keeps cut d = true →
      (p.make above node).Spans cut d ∧ (p.make above node).keeps cut d = true := fun hd =>
    ⟨⟨hd.1.1, hlt hd.1.2⟩, (keeps_make_of_lt habove hd.1.2).trans hd.2⟩
  have hrecalls : ∀ j < (p.make above node).size, cut.base ≤ j →
      Recalls cut (p.make above node) ((p.make above node).node j) :=
    forall_make (P := fun j new => cut.base ≤ j → Recalls cut (p.make above node) new) habove
      (fun j hj hle => ⟨h.group j ⟨hle, hj⟩, fun d hd => hkept (h.declare j ⟨hle, hj⟩ d hd),
        fun d hd => hkept (h.reference j ⟨hle, hj⟩ d hd)⟩)
      (fun h hle => ⟨(h hle).group, (h hle).declare, (h hle).reference⟩)
      fun _ => ⟨hfresh.group, by simp [hfresh.declare], by simp [hfresh.reference]⟩
  have hbelow : ∀ j < (p.make above node).size, cut.base ≤ j →
      ((p.make above node).node j).kind.Permits cut.drops ((p.make above node).kindsBelow j) := by
    refine forall_make (P := fun j new => cut.base ≤ j → new.kind.Permits cut.drops
      (new.children.map fun c => ((p.make above node).node c).kind)) habove ?_ (fun _ _ => ?_) ?_
    · intro j hj hle
      rw [map_congr_left fun c hc => hkind c (h.child j ⟨hle, hj⟩ c hc).2.1]
      exact h.below j ⟨hle, hj⟩
    · rw [Admits, ← kindsBelow_make_above h ⟨hle, habove⟩, kindsBelow, node_make_parent habove]
        at hpermits
      exact hpermits
    · rw [hfresh.children]
      exact fun _ => permits_nil _
  constructor
  · exact hlt h.pos
  · rw [hkind _ h.pos, hparent _ h.pos]
    exact h.top
  · exact fun j hj => forall_make (P := fun j new => cut.base ≤ j → new.kind = .project → j = 0)
      habove (fun j hj hle => h.only j ⟨hle, hj⟩) (fun h => h)
      (fun _ hproject => absurd hproject hfresh.kind) j hj.2 hj.1
  · refine fun j hpos hj => forall_make (P := fun j new => cut.base < j →
      (cut.base ≤ new.parent ∧ new.parent < j) ∧
      j ∈ ((p.make above node).node new.parent).children ∧
      (p.make above node).keeps cut new.parent = true) habove ?_ (fun h => h) ?_ j hj hpos
    · intro j hj hpos
      obtain ⟨hlt', hmem, hkeeps⟩ := h.parent j hpos hj
      have hj' := Nat.lt_trans hlt'.2 hj
      refine ⟨hlt', ?_, (hkept ⟨⟨hlt'.1, hj'⟩, hkeeps⟩).2⟩
      by_cases heq : (p.node j).parent = above
      · rw [heq] at hmem ⊢
        rw [node_make_parent habove]
        exact mem_append_left _ hmem
      · rwa [node_make_of_ne hj' heq]
    · refine fun _ => ⟨⟨hle, habove⟩, ?_, (hkept ⟨⟨hle, habove⟩, hkeeps⟩).2⟩
      rw [node_make_parent habove]
      exact mem_append_right _ (mem_singleton_self _)
  · refine fun j hj => forall_make (P := fun j new => cut.base ≤ j → ∀ c ∈ new.children, j < c ∧
      c < (p.make above node).size ∧ ((p.make above node).node c).parent = j) habove ?_ ?_ ?_ j
      hj.2 hj.1
    · intro j hj hle c hc
      obtain ⟨hjc, hcsize, heq⟩ := h.child j ⟨hle, hj⟩ c hc
      exact ⟨hjc, hlt hcsize, (hparent c hcsize).trans heq⟩
    · refine fun hold hle => forall_mem_append.2 ⟨hold hle, forall_mem_singleton.2 ?_⟩
      exact ⟨habove, by rw [size_make]; exact Nat.lt_succ_self _, by rw [node_make_new node habove]⟩
    · simp [hfresh.children]
  · exact fun j hj => (hrecalls j hj.2 hj.1).group
  · exact fun j hj => (hrecalls j hj.2 hj.1).declare
  · exact fun j hj => (hrecalls j hj.2 hj.1).reference
  · exact fun j hj => hbelow j hj.2 hj.1

lemma extends_make (hspans : p.Spans cut above')
    (hopened : g.opened = false → cut.drops node.kind = false)
    (hgrows : above' = g.above ∨ (p.node above').kind.isGrowing = true) :
    p.Extends cut g (p.make above' node) where
  settings := rfl
  size_le := by rw [size_make]; omega
  kind j hj := kind_make_of_lt hspans.2 hj
  old j hj := node_make_of_ne (by omega) (by omega)
  top _ := apply_node_make hspans.2 (by omega) fun _ _ => rfl
  keeps hclosed j hle hlt := by
    obtain rfl : j = p.size := by
      rw [size_make] at hlt
      omega
    rw [keeps_make_new hspans.2, hopened hclosed]
    rfl
  frame j hj hne hkind := by
    have hne' : j ≠ above' := by
      rintro rfl
      rcases hgrows with rfl | hgrows
      · exact hne rfl
      · rw [hgrows] at hkind
        cases hkind
    rw [node_make_of_ne hj hne']
  placed hplaced := (apply_node_make (g := fun node : Node =>
    node.cur?.isSome = true ∧ node.code?.isSome = true) hspans.2
    (Nat.zero_lt_of_lt hspans.2) fun _ _ => rfl).mpr hplaced

section

variable (h : p.Sheds cut p') (habove : p.Stands cut above above') (hfresh : Fresh node)

include h habove hfresh

lemma Sheds.make (hkept : cut.drops node.kind = false) (hpermits : Admits cut p above [node.kind]) :
    (p.make above node).Sheds cut (p'.make above' node) where
  asides := h.asides
  sound := h.sound.make habove.spans habove.keeps hfresh hpermits
  size := by
    rw [size_make, size_make, rank, keeps_make_new habove.lt, hkept,
      rank_make_of_le habove.lt .refl, h.size]
    rfl
  node j hj hkeeps := by
    rw [Spans, size_make] at hj
    have hlt' := h.lt_size habove
    rcases Nat.lt_succ_iff_lt_or_eq.1 hj.2 with hlt | rfl
    · rw [keeps_make_of_lt habove.lt hlt] at hkeeps
      rw [rank_make_of_le habove.lt (Nat.le_of_lt hlt)]
      have hj' : p.Stands cut j (p.rank cut j) := ⟨⟨hj.1, hlt⟩, hkeeps, rfl⟩
      by_cases hne : j = above
      · subst hne
        rw [← habove.rank, node_make_parent hlt', node_make_parent hlt, h.node_eq habove]
        have hnew : (p.make j node).rank cut p.size = p'.size := by
          rw [rank_make_of_le hlt .refl, h.size]
        have hrefers := h.sound.refers hj'.spans
        have hold : (p.make j node).renumber cut (p.node j) = p.renumber cut (p.node j) :=
          renumber_make node hlt hrefers
        simp only [renumber, filter_append, map_append, filter_cons, keeps_make_new hlt, hkept,
          Bool.not_false, if_true, map_cons, hnew] at hold ⊢
        simp only [Node.mk.injEq] at hold ⊢
        simp [hold]
      · have hne' : p.rank cut j ≠ above' := by
          rw [habove.rank]
          exact fun heq => hne (rank_inj hkeeps habove.keeps heq)
        rw [node_make_of_ne (h.lt_size hj') hne', node_make_of_ne hlt hne, h.node_eq hj',
          renumber_make node habove.lt (h.sound.refers hj'.spans)]
    · rw [rank_make_of_le habove.lt .refl, ← h.size, node_make_new node hlt',
        node_make_new node habove.lt]
      simp only [renumber, hfresh.children, hfresh.group, hfresh.declare, hfresh.reference,
        rank_make_of_le habove.lt (Nat.le_of_lt habove.lt), ← habove.rank]
      rfl

lemma Sheds.make_dropped (hdrop : cut.drops node.kind = true)
    (hpermits : Admits cut p above [node.kind]) :
    (p.make above node).Sheds cut p' where
  asides := h.asides
  sound := h.sound.make habove.spans habove.keeps hfresh hpermits
  size := by
    rw [size_make, rank, keeps_make_new habove.lt, hdrop, rank_make_of_le habove.lt .refl, h.size]
    rfl
  node j hj hkeeps := by
    rw [Spans, size_make] at hj
    rcases Nat.lt_succ_iff_lt_or_eq.1 hj.2 with hlt | rfl
    · rw [keeps_make_of_lt habove.lt hlt] at hkeeps
      rw [rank_make_of_le habove.lt (Nat.le_of_lt hlt), h.node j ⟨hj.1, hlt⟩ hkeeps]
      have hrefers := h.sound.refers ⟨hj.1, hlt⟩
      by_cases hne : j = above
      · subst hne
        have hold : (p.make j node).renumber cut (p.node j) = p.renumber cut (p.node j) :=
          renumber_make node hlt hrefers
        rw [← hold, node_make_parent hlt]
        simp [renumber, keeps_make_new hlt, hdrop]
      · rw [node_make_of_ne hlt hne, renumber_make node habove.lt hrefers]
    · rw [keeps_make_new habove.lt, hdrop] at hkeeps
      cases hkeeps

end

end Make

end Project

end ArmaGen
