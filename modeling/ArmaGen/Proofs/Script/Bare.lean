import ArmaGen.Proofs.Project.Load
import ArmaGen.Proofs.Script.Untyped

/-!
# Bare programs

A project is bare if it holds one program that is a script of expressions, and nothing is known
about the names in it. Its nodes stand in a fixed order.
-/

namespace ArmaGen

open List

/-! ### Bare nodes -/

def Kind.isBody : Kind → Bool
  | .block | .statement | .paren | .neg | .not | .transpose | .ctranspose | .var | .get | .exp
  | .elexp | .mul | .minus | .elmul | .matrixDivision | .elementDivision | .leftMatrixDivision
  | .leftElementDivision | .plus | .gt | .ge | .lt | .le | .ne | .eq | .band | .bor | .land
  | .lor => true
  | _ => false

def Kind.isBare : Kind → Bool
  | .project | .program | .includes | .funcs | .inlines | .structs | .headers | .log | .main
  | .declares | .returns | .params => true
  | kind => kind.isBody

variable {kind : Kind}

lemma Kind.isBare_of_isBody (h : kind.isBody = true) : kind.isBare = true := by
  cases kind <;> first | rfl | cases h

lemma Kind.isInner_of_isBody (h : kind.isBody = true) : kind.isInner = true := by
  cases kind <;> first | rfl | cases h

/-- The rules by which the nodes of a bare program are emitted. -/
def Kind.bareRules (kind : Kind) : RuleSet :=
  kind.rules?.getD <| match kind with
    | .declares | .returns | .params => .funcReturn
    | _ => .unknown

/-- Whether nothing is known about a name. -/
def isUnknownName (name : String) : Bool :=
  name.toList.all isWord && !reservedNames.contains name && name != "main"

lemma Name.isUnknownName_text {n : Name} (h : n.isUnknown = true) :
    isUnknownName n.text = true := by
  simp only [Name.isUnknown, Bool.and_eq_true] at h
  have hword : n.text.toList.all isWord = true := by
    rw [all_eq_true, Name.text, String.toList_ofList]
    exact fun c hc => n.isWord_of_mem hc
  rw [isUnknownName, hword, h.1.2, h.2]
  rfl

/-- A node about which nothing is known. -/
structure Node.Bare (node : Node) : Prop where
  kind : node.kind.isBare = true
  name : node.kind.isName = true → isUnknownName node.name = true
  type : node.type = .unknown
  suggestion : node.suggestion = .type .unknown
  pointer : node.pointer = 0
  declare? : node.declare? = none
  backend : node.backend = .unknown ∨ node.backend = node.kind.bareRules

/-- A node without the rules that emit it and what is emitted for it. -/
def Node.core (node : Node) : Node :=
  { node with backend := .unknown, str := "", ret := "", unassigned? := none }

lemma Node.Bare.congr {node node' : Node} (h : node.Bare) (hcore : node'.core = node.core)
    (hbackend : node'.backend = .unknown ∨ node'.backend = node'.kind.bareRules) :
    node'.Bare where
  kind := by rw [show node'.kind = node.kind from (congrArg Node.kind hcore :), h.kind]
  name := by
    rw [show node'.kind = node.kind from (congrArg Node.kind hcore :),
      show node'.name = node.name from (congrArg Node.name hcore :)]
    exact h.name
  type := (congrArg Node.type hcore :).trans h.type
  suggestion := (congrArg Node.suggestion hcore :).trans h.suggestion
  pointer := (congrArg Node.pointer hcore :).trans h.pointer
  declare? := (congrArg Node.declare? hcore :).trans h.declare?
  backend := hbackend

lemma Kind.isField_eq_false (h : kind.isBare = true) : kind.isField = false := by
  cases kind <;> first | rfl | cases h

lemma Kind.isRecord_bareRules (h : kind.isBare = true) : kind.bareRules.isRecord = false := by
  cases kind <;> first | rfl | cases h

lemma Node.Bare.isRecord {node : Node} (h : node.Bare) : node.backend.isRecord = false := by
  rcases h.backend with hbackend | hbackend <;> rw [hbackend]
  · rfl
  · exact Kind.isRecord_bareRules h.kind

/-! ### Bare projects -/

/-- The kinds of the first nodes of a script, and the nodes above them. -/
def Script.frame : List (Kind × Nat) :=
  [(.project, 0), (.program, 0), (.includes, 1), (.funcs, 1), (.inlines, 1), (.structs, 1),
    (.headers, 1), (.log, 1), (.main, 3), (.declares, 8), (.returns, 8), (.params, 8)]

/-- The nodes below the first nodes of a script with so many nodes. -/
def Script.below (size : Nat) : Nat → List Nat
  | 0 => [1]
  | 1 => [2, 3, 4, 5, 6, 7]
  | 3 => if size = 8 then [] else [8]
  | 8 => [9, 10, 11, 12]
  | _ => []

/-- A project with a script of expressions about which nothing is known. -/
structure Project.Bare (text : String) (p : Project) : Prop extends p.Sited text where
  parts : p.size = 8 ∨ 12 < p.size
  node : ∀ id < p.size, (p.node id).Bare
  frame : ∀ id < p.size, ∀ kind above, Script.frame[id]? = some (kind, above) →
    (p.node id).kind = kind ∧ p.above id = above
  children : ∀ id < p.size, id < 12 → (p.node id).children = Script.below p.size id
  name_main : 8 < p.size → (p.node 8).name = "main"
  body : ∀ id < p.size, 12 ≤ id → (p.node id).kind.isBody = true ∧ 8 ≤ p.above id
  child_lt : ∀ id < p.size, ∀ c : Nat, c ∈ (p.node id).children → id < c ∧ c < p.size

namespace Project

variable {p p' : Project} {text : String} {id : Nat}

section

variable (h : p.Bare text)

include h

lemma Bare.eight_le : 8 ≤ p.size := by
  rcases h.parts with hparts | hparts <;> omega

lemma Bare.pos : 0 < p.size :=
  Nat.lt_of_lt_of_le (by decide) h.eight_le

lemma Bare.twelve_lt (hne : p.size ≠ 8) : 12 < p.size :=
  h.parts.resolve_left hne

lemma Bare.le_of_kind (hid : id < p.size) {kind : Kind} {n : Nat} (hkind : (p.node id).kind = kind)
    (hn : n ≤ 12 ∧ ∀ part ∈ Script.frame.take n, part.1 ≠ kind) : n ≤ id := by
  refine Nat.not_lt.mp fun hlt => ?_
  obtain ⟨part, hpart⟩ : ∃ part, (Script.frame.take n)[id]? = some part :=
    ⟨_, getElem?_eq_getElem (by simp [Script.frame]; omega)⟩
  refine hn.2 part (mem_of_getElem? hpart) ?_
  rw [getElem?_take_of_lt hlt] at hpart
  rw [← hkind, (h.frame id hid part.1 part.2 hpart).1]

lemma Bare.lt_of_kind (hid : id < p.size) (hbody : (p.node id).kind.isBody = false) : id < 12 := by
  refine Nat.not_le.mp fun hge => ?_
  rw [(h.body id hid hge).1] at hbody
  cases hbody

/-- A project stays bare if nothing but the rules of nodes is found out. -/
lemma Bare.congr (hsize : p'.size = p.size) (hcore : ∀ id, (p'.node id).core = (p.node id).core)
    (hbackend : ∀ id < p.size, (p'.node id).backend = .unknown ∨
      (p'.node id).backend = (p'.node id).kind.bareRules) : p'.Bare text := by
  have hkind : ∀ id, (p'.node id).kind = (p.node id).kind := fun id =>
    (congrArg Node.kind (hcore id) :)
  have habove : ∀ id, p'.above id = p.above id := fun id => (congrArg Node.parent (hcore id) :)
  have hchildren : ∀ id, (p'.node id).children = (p.node id).children := fun id =>
    (congrArg Node.children (hcore id) :)
  have hcur : ∀ id, (p'.node id).cur? = (p.node id).cur? := fun id =>
    (congrArg Node.cur? (hcore id) :)
  have hcode : ∀ id, (p'.node id).code? = (p.node id).code? := fun id =>
    (congrArg Node.code? (hcore id) :)
  have hname : (p'.node 8).name = (p.node 8).name := (congrArg Node.name (hcore 8) :)
  constructor
  · exact h.toSited.congr hsize hkind habove hcur hcode
  all_goals simp only [hsize, hkind, habove, hchildren, hname]
  · exact h.parts
  · exact fun id hid => (h.node id hid).congr (hcore id) (hbackend id hid)
  · exact h.frame
  · exact h.children
  · exact h.name_main
  · exact h.body
  · exact h.child_lt

lemma Bare.of_nodes_eq (hnodes : p'.nodes = p.nodes) : p'.Bare text := by
  have hnode := node_congr hnodes
  refine h.congr (by rw [size, size, hnodes]) (fun id => by rw [hnode]) fun id hid => ?_
  rw [hnode]
  exact (h.node id hid).backend

lemma Bare.make {node : Node} (hblock : 12 ≤ id) (hid : id < p.size)
    (hnode : node.Bare) (hbody : node.kind.isBody = true) (hchildren : node.children = [])
    (hcur : ∀ cur, node.cur? = some cur → 0 ≤ cur ∧ cur < text.length) :
    (p.make id node).Bare text := by
  have hold : ∀ j : Nat, j < 12 → (p.make id node).node j = p.node j := fun j hj =>
    node_make_of_ne (by omega) (by omega)
  refine ⟨?_, by rw [size_make]; omega, ?_, ?_, ?_, ?_, ?_, ?_⟩
  · refine h.toSited.make (by omega) hid ?_ ?_ hcur <;> (intro heq; rw [heq] at hbody; cases hbody)
  · have hsame : ∀ {node : Node} {parent : Nat} {children : List Nat}, node.Bare →
        { node with parent, children }.Bare := fun h =>
      ⟨h.kind, h.name, h.type, h.suggestion, h.pointer, h.declare?, h.backend⟩
    exact forall_make hid h.node hsame (hsame hnode)
  · intro j _ kind above hframe
    have hj12 : j < 12 := (List.getElem?_eq_some_iff.mp hframe).1
    unfold Project.above
    rw [hold j hj12]
    exact h.frame j (by omega) kind above hframe
  · intro j hj hj12
    rw [hold j hj12, h.children j (by omega) hj12, size_make]
    unfold Script.below
    split <;> first | rfl | rw [if_neg (by omega), if_neg (by omega)]
  · intro _
    rw [hold 8 (by decide), h.name_main (by omega)]
  · exact forall_make (P := fun j new => 12 ≤ j → new.kind.isBody = true ∧ 8 ≤ new.parent) hid
      h.body (fun h => h) fun _ => ⟨hbody, show 8 ≤ id by omega⟩
  · refine forall_make (P := fun j new => ∀ c ∈ new.children, j < c ∧ c < (p.make id node).size) hid
      (fun j hj c hc => ?_) (fun hold => ?_) (by simp [hchildren])
    · have hc := h.child_lt j hj c hc
      exact ⟨hc.1, size_make ▸ Nat.lt_succ_of_lt hc.2⟩
    · refine forall_mem_append.2 ⟨hold, forall_mem_singleton.2 ⟨hid, ?_⟩⟩
      exact size_make ▸ Nat.lt_succ_self _

end

/-! ### Look-ups in bare projects -/

lemma Bare.encloses_main (h : p.Bare text) (hmain : 8 ≤ id) (hid : id < p.size) :
    p.Encloses Kind.boundsFunction 8 id := by
  have hself : p.Encloses Kind.boundsFunction 8 8 :=
    .self (by rw [(h.frame 8 (by omega) .main 3 rfl).1]; rfl) (by omega)
  induction id using Nat.strongRecOn with
  | ind id ih =>
    rcases Nat.lt_or_ge id 12 with hlt | hge
    · obtain rfl | hne : id = 8 ∨ 8 < id := by omega
      · exact hself
      · obtain ⟨kind, hframe, hkind⟩ : ∃ kind, Script.frame[id]? = some (kind, 8) ∧
            kind.boundsFunction = false := by
          obtain rfl | rfl | rfl : id = 9 ∨ id = 10 ∨ id = 11 := by omega
          all_goals exact ⟨_, rfl, rfl⟩
        obtain ⟨hk, habove⟩ := h.frame id hid kind 8 hframe
        have hup : (p.node id).parent = 8 := habove
        exact .above (hk ▸ hkind) (hup ▸ hne) hid (hup ▸ hself)
    · obtain ⟨hbody, habove⟩ := h.body id hid hge
      have hup := h.above_lt id hid (by omega)
      exact .above (Kind.boundsFunction_eq_false (Kind.isInner_of_isBody hbody)) hup hid
        (ih _ hup habove (Nat.lt_trans hup hid))

lemma Bare.typeless (h : p.Bare text) (hmain : 8 ≤ id) (hid : id < p.size) : p.Typeless id := by
  have hsize := h.twelve_lt (by omega)
  have hnode := h.node id hid
  refine ⟨⟨⟨8, 9, 11, ⟨h.encloses_main hmain hid, ⟨10, [12], ?_⟩, ?_, by omega⟩, ?_, ?_⟩,
    hnode.declare?, Kind.isField_eq_false hnode.kind, hnode.isRecord⟩, hnode.type⟩
  · exact h.children 8 (by omega) (by decide)
  · exact (h.frame 9 (by omega) .declares 8 rfl).1
  · exact h.children 9 (by omega) (by decide)
  · exact h.children 11 (by omega) (by decide)

/-! ### Nodes below a node -/

variable {top : Nat} {backwards : Bool}

section

variable (h : p.Bare text)

include h

lemma Bare.below_program : p.Below 0 1 := by
  refine .child .self ?_
  rw [h.children 0 h.pos (by decide)]
  exact .head _

lemma Bare.lt_of_below (htop : top < p.size) (hbelow : p.Below top id) : top ≤ id ∧ id < p.size :=
  hbelow.lt (fun id _ => h.child_lt id) htop

lemma Bare.mem_postorderSteps {n : Nat} (htop : top < p.size) (hn : p.size ≤ n + top)
    (hbelow : p.Below top id) : id ∈ p.postorderSteps backwards n top := by
  induction n generalizing top with
  | zero => omega
  | succ n ih =>
    rw [postorderSteps, mem_append]
    rcases hbelow.eq_or with rfl | ⟨c, hc, hbelow⟩
    · exact .inr (mem_singleton_self _)
    · have := h.child_lt top htop c hc
      exact .inl (mem_flatMap.mpr ⟨c, mem_childrenIn.mpr hc, ih this.2 (by omega) hbelow⟩)

/-! ### Outlines of bare projects -/

lemma Bare.children_eq_nil (hid : id < p.size) (hbody : (p.node id).kind.isBody = false)
    (hkind : (p.node id).kind ∉ [.project, .program, .funcs, .main]) :
    (p.node id).children = [] := by
  have hlt := h.lt_of_kind hid hbody
  have hframe : ∀ {kind : Kind} {above : Nat}, Script.frame[id]? = some (kind, above) →
      kind ∉ [.project, .program, .funcs, .main] := by
    intro kind above hframe
    rwa [← (h.frame id hid kind above hframe).1]
  rw [h.children id hid hlt]
  unfold Script.below
  split
  iterate 4 · exact absurd (by decide) (hframe rfl)
  · rfl

/-- The outline of a node consists of its kind, name and value and of the outlines below it. -/
lemma Bare.outline_eq (hid : id < p.size) :
    p.outline id = .node (p.node id).kind (p.node id).name (p.node id).value
      ((p.node id).children.map p.outline) := by
  have hsteps : ∀ n m id, id < p.size → p.size ≤ n + id → p.size ≤ m + id →
      p.outlineSteps n id = p.outlineSteps m id := by
    intro n
    induction n with
    | zero =>
      omega
    | succ n ih =>
      intro m id hid hn hm
      rcases m with _ | m
      · omega
      rw [outlineSteps]
      congr 1
      split
      · rfl
      · refine map_congr_left fun c hc => ?_
        have := h.child_lt id hid c hc
        exact ih m c this.2 (by omega) (by omega)
  have hassign : (p.node id).kind ≠ .assign := by
    intro hkind
    have := (h.node id hid).kind
    rw [hkind] at this
    cases this
  rw [outline, outlineSteps, if_neg hassign]
  congr 1
  split
  next hkind =>
    rw [h.children_eq_nil hid (by rw [hkind]; rfl) (by rw [hkind]; decide), map_nil]
  next =>
    refine map_congr_left fun c hc => ?_
    have := h.child_lt id hid c hc
    exact hsteps p.size (p.size + 1) c this.2 (by omega) (by omega)

end

end Project

end ArmaGen
