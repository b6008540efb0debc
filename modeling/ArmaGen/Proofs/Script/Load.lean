import ArmaGen.Proofs.Script.Bare

/-!
# Loading bare scripts
-/

namespace ArmaGen

open List

open Project Script

namespace Syntax

mutual

/-- Every node of a tree is written in a given way, and nothing is asked to be declared. -/
def Each (P : Head → Prop) : Syntax → Prop
  | .declare => False
  | .node head items => P head ∧ EachOf P items

def EachOf (P : Head → Prop) : List Syntax → Prop
  | [] => True
  | item :: rest => Each P item ∧ EachOf P rest

end

end Syntax

namespace Edit

/-- Nodes of some heads can be put below any node from `least` on, and what is known of the project
goes on to hold. -/
structure Plants (I : Project → Prop) (P : Head → Prop) (least : Nat) : Prop where
  kind (head : Head) (h : P head) : head.kind ≠ .lambda ∧ head.kind ≠ .func
  make (p : Project) (head : Head) (id : Nat) (hp : I p) (h : P head) (hleast : least ≤ id)
    (hid : id < p.size) : I (p.make id (.ofHead head))

variable {I : Project → Prop} {P : Head → Prop} {least : Nat}

mutual

lemma exists_installItem_eq (hI : Plants I P least) :
    ∀ (tree : Syntax) {p : Project} {parent : Nat}, tree.Each P → I p → least ≤ parent →
      parent < p.size → ∃ p', installItem parent tree p = .ok () p' ∧ I p' ∧ p.size ≤ p'.size
  | .declare, _, _, h, _, _, _ => h.elim
  | .node head items, p, parent, ⟨hhead, hitems⟩, hp, hleast, hparent => by
    rw [installItem_eq (hI.kind head hhead).1 (hI.kind head hhead).2, make_bind]
    have hsize : (p.make parent (.ofHead head)).size = p.size + 1 := size_make
    obtain ⟨p', hrun, hp', hle⟩ := exists_install_eq hI items hitems
      (hI.make p head parent hp hhead hleast hparent) (show least ≤ p.size by omega)
      (by rw [hsize]; exact Nat.lt_succ_self _)
    exact ⟨p', hrun, hp', by omega⟩

lemma exists_install_eq (hI : Plants I P least) :
    ∀ (trees : List Syntax) {p : Project} {parent : Nat}, Syntax.EachOf P trees → I p →
      least ≤ parent → parent < p.size →
      ∃ p', install parent trees p = .ok () p' ∧ I p' ∧ p.size ≤ p'.size
  | [], p, _, _, hp, _, _ => ⟨p, rfl, hp, .refl⟩
  | tree :: rest, p, parent, ⟨htree, hrest⟩, hp, hleast, hparent => by
    obtain ⟨p', hrun, hp', hle⟩ := exists_installItem_eq hI tree htree hp hleast hparent
    obtain ⟨p'', hrun', hp'', hle'⟩ := exists_install_eq hI rest hrest hp' hleast
      (Nat.lt_of_lt_of_le hparent hle)
    exact ⟨p'', bind_run hrun hrun', hp'', Nat.le_trans hle hle'⟩

end

end Edit

/-! ### Trees of untyped expressions -/

/-- What is written at a node of a bare script that is read from a text of some length. -/
structure Head.Bare (length : Nat) (head : Head) : Prop where
  kind : head.kind.isBody = true
  name : head.kind.isName = true → isUnknownName head.name = true
  pointer : head.pointer = 0
  cur : ∀ cur, head.cur? = some cur → 0 ≤ cur ∧ cur < length

lemma Head.Bare.node {length : Nat} {head : Head} (h : head.Bare length) :
    (Node.ofHead head).Bare :=
  ⟨Kind.isBare_of_isBody h.kind, h.name, rfl, rfl, h.pointer, rfl, .inl rfl⟩

namespace Term

variable {sp : Spacing} {k : Int} {t : Term} {ts : List Term} {sep : List Char} {length : Nat}

lemma head_bare {kind : Kind} {name : String} (hbody : kind.isBody = true)
    (hname : kind.isName = true → isUnknownName name = true) (hk : 0 ≤ k)
    (hend : k + (t.text sp).length ≤ length) :
    { head sp k t kind with name }.Bare length := by
  refine ⟨hbody, hname, rfl, ?_⟩
  rintro _ ⟨⟩
  obtain ⟨c, cs, htext, -⟩ := t.exists_head sp
  rw [htext, length_cons] at hend
  omega

lemma eachOf_trees (hts : ∀ t ∈ ts, ∀ k : Int, 0 ≤ k → k + (t.text sp).length ≤ length →
      (t.tree sp k).Each (Head.Bare length))
    (hk : 0 ≤ k) (hend : k + (tailed sp sep ts).length ≤ length + sep.length) :
    Syntax.EachOf (Head.Bare length) (trees sp sep.length k ts) := by
  induction ts generalizing k with
  | nil => trivial
  | cons t ts ih =>
    rw [tailed, length_append, length_append] at hend
    refine ⟨hts t (.head _) k hk (by omega), ?_⟩
    exact ih ((forall_mem_cons.1 hts).2) (by omega) (by omega)

lemma isBody_kind {op : Operator} (h : op ≠ .colon) : op.kind.isBody = true := by
  cases op <;> first | rfl | exact absurd rfl h

lemma Untyped.each_tree (ht : t.Untyped) (hk : 0 ≤ k) (hend : k + (t.text sp).length ≤ length) :
    (t.tree sp k).Each (Head.Bare length) := by
  induction ht generalizing k with
  | @name n hn =>
    exact ⟨head_bare rfl (fun _ => Name.isUnknownName_text hn) hk hend, trivial⟩
  | @call f args hf _ ih =>
    refine ⟨head_bare rfl (fun _ => Name.isUnknownName_text hf) hk hend, ?_⟩
    refine eachOf_trees (fun t ht k => ih t ht) (by omega) ?_
    have hlen : (tailed sp sp.comma args).length ≤ (joined sp args).length + sp.comma.length := by
      cases args with
      | nil => exact Nat.zero_le _
      | cons t ts =>
        rw [tailed, joined, length_append, length_append, length_append]
        omega
    rw [text, length_append, length_append, length_cons] at hend
    omega
  | paren _ ih =>
    refine ⟨head_bare rfl (fun h => absurd h (by decide)) hk hend, ih (by omega) ?_, trivial⟩
    rw [text, length_append, length_cons] at hend
    omega
  | neg _ ih | not _ ih =>
    refine ⟨head_bare rfl (fun h => absurd h (by decide)) hk hend, ih (by omega) ?_, trivial⟩
    rw [text, length_cons] at hend
    omega
  | transpose _ ih | ctranspose _ ih =>
    refine ⟨head_bare rfl (fun h => absurd h (by decide)) hk hend, ih hk ?_, trivial⟩
    rw [text, length_append] at hend
    omega
  | @chain op first others hop _ _ ihf iho =>
    have hname : op.kind.isName = true → isUnknownName "" = true := fun h =>
      by cases op <;> cases h
    refine ⟨head_bare (isBody_kind hop) hname hk hend, ?_⟩
    rw [text, length_append] at hend
    exact ⟨ihf hk (by omega), eachOf_trees (fun t ht k => iho t ht) (by omega) (by omega)⟩

end Term

namespace Script

variable {sp : Spacing} {k : Int} {ts : List Term} {length : Nat}

lemma eachOf_statements (hts : ∀ t ∈ ts, t.Untyped) (hk : 0 ≤ k)
    (hend : k + (lines sp ts).length ≤ length) :
    Syntax.EachOf (Head.Bare length) (statements sp k ts) := by
  induction ts generalizing k with
  | nil => trivial
  | cons t ts ih =>
    rw [lines, flatMap_cons, length_append, length_append, length_singleton, ← lines] at hend
    refine ⟨⟨Term.head_bare rfl (fun h => absurd h (by decide)) hk (by omega), ?_, trivial⟩, ?_⟩
    · exact (hts t (.head _)).each_tree hk (by omega)
    · exact ih ((forall_mem_cons.1 hts).2) (by omega) (by omega)

end Script

/-! ### The first nodes -/

/-- The project with the main function of a script. -/
def Project.withMain (p : Project) (code : String) : Project :=
  ((((p.make 3 { kind := .main, name := "main" }).make 8 { kind := .declares }).make 8
    { kind := .returns }).make 8 { kind := .params }).make 8
    { kind := .block, cur? := some 0, code? := some code }

def Script.programNodes (name text : String) (functions : List Nat) : List Node :=
  [{ kind := .project, cur? := some 0, line? := some 0, code? := some "", children := [1] },
    { kind := .program, name, cur? := some 0, code? := some text, children := [2, 3, 4, 5, 6, 7] },
    { kind := .includes, value := name, code? := some "", parent := 1 },
    { kind := .funcs, name, line? := some 1, parent := 1, children := functions },
    { kind := .inlines, name, parent := 1 },
    { kind := .structs, name, parent := 1 },
    { kind := .headers, name, parent := 1 },
    { kind := .log, name, parent := 1 }]

def Script.mainNodes (code : String) : List Node :=
  [{ kind := .main, name := "main", parent := 3, children := [9, 10, 11, 12] },
    { kind := .declares, parent := 8 },
    { kind := .returns, parent := 8 },
    { kind := .params, parent := 8 },
    { kind := .block, cur? := some 0, code? := some code, parent := 8 }]

namespace Project

variable {p : Project} {name text code : String}

def withNodes (p : Project) (nodes : List Node) : Project :=
  { p with nodes := nodes.toArray }

lemma make_withNodes (p : Project) (nodes : List Node) (id : Nat) (node : Node) :
    (p.withNodes nodes).make id node =
      p.withNodes ((nodes ++ [{ node with parent := id }]).modify id
        fun above => { above with children := above.children ++ [nodes.length] }) := by
  simp only [make, withNodes, update, size]
  congr 1
  apply Array.ext'
  simp

lemma withProgram_eq (h : p.nodes = ({} : Project).nodes) :
    p.withProgram name text = p.withNodes (programNodes name text []) := by
  have hp : p = p.withNodes
      [{ kind := .project, cur? := some 0, line? := some 0, code? := some "" }] := by
    cases p
    cases h
    rfl
  rw [hp, withProgram]
  simp only [make_withNodes]
  rfl

lemma withMain_eq (h : p.nodes = ({} : Project).nodes) : (p.withProgram name text).withMain code =
      p.withNodes (programNodes name text [8] ++ mainNodes code) := by
  rw [withProgram_eq h, withMain]
  simp only [make_withNodes]
  rfl

/-- What holds for the nodes of a list in turn. -/
def Along (P : Nat → Node → Prop) (k : Nat) : List Node → Prop
  | [] => True
  | node :: nodes => P k node ∧ Along P (k + 1) nodes

variable {nodes : List Node}

lemma Along.forall {P : Nat → Node → Prop} (h : Along P 0 nodes) :
    ∀ id < (p.withNodes nodes).size, P id ((p.withNodes nodes).node id) := by
  have hget : ∀ nodes k i hi, Along P k nodes →
      P (k + i) nodes[i] := by
    intro nodes
    induction nodes with
    | nil => exact fun _ _ hi => absurd hi (Nat.not_lt_zero _)
    | cons node nodes ih =>
      intro k i hi ⟨hnode, hrest⟩
      cases i with
      | zero => exact hnode
      | succ i =>
        have := ih (k + 1) i (Nat.lt_of_succ_lt_succ hi) hrest
        rwa [show k + 1 + i = k + (i + 1) by omega] at this
  intro id hid
  have hid : id < nodes.length := hid
  have := hget nodes 0 id hid h
  simpa [node, withNodes, hid] using this

/-- A node has its place in a script with so many nodes. -/
structure Fits (text : String) (size id : Nat) (node : Node) : Prop where
  bare : node.Bare
  frame : ∀ kind above, frame[id]? = some (kind, above) →
    node.kind = kind ∧ node.parent = above
  children : id < 12 → node.children = below size id
  place : id = 0 ∨ id > node.parent ∧ (id = 1 ∨ 1 ≤ node.parent ∧ node.kind ≠ .program ∧
    node.kind ≠ .project)
  body : 12 ≤ id → node.kind.isBody = true ∧ 8 ≤ node.parent
  cur : node.cur? = none ∨ node.cur? = some 0
  child_lt : ∀ c ∈ node.children, id < c ∧ c < size

lemma bare_withNodes (hparts : nodes.length = 8 ∨ 12 < nodes.length) (htext : 0 < text.length)
    (hfits : Along (Fits text nodes.length) 0 nodes)
    (hroot : (nodes.getD 0 default).cur? ≠ none ∧ (nodes.getD 0 default).code? ≠ none)
    (hprogram : (nodes.getD 1 default).code? = some text)
    (hmain : 8 < nodes.length → (nodes.getD 8 default).name = "main") :
    (p.withNodes nodes).Bare text := by
  have hfits : ∀ id < nodes.length, Fits text nodes.length id ((p.withNodes nodes).node id) :=
    hfits.forall
  have hnode : ∀ id, (p.withNodes nodes).node id = nodes.getD id default := by
    simp [node, withNodes]
  have hlt : 1 < nodes.length := by omega
  refine ⟨⟨hlt, ?_, ?_, ?_, ?_, ?_, ?_, ?_, ?_⟩, hparts, ?_, ?_, ?_, ?_, ?_, ?_⟩
  · exact ((hfits 0 (by omega)).frame .project 0 rfl).1
  · exact ((hfits 1 hlt).frame .program 0 rfl).1
  · intro id hid hpos
    rcases (hfits id hid).place with rfl | ⟨hplace, -⟩
    · exact absurd hpos (Nat.lt_irrefl 0)
    · exact hplace
  · intro id hid hpos
    rcases (hfits id hid).place with rfl | ⟨-, rfl | hplace⟩
    · exact absurd hpos (by decide)
    · exact absurd hpos (by decide)
    · exact hplace
  · rw [hnode]
    exact hroot.1
  · rw [hnode]
    exact hroot.2
  · rw [hnode]
    exact hprogram
  · intro id hid cur hcur
    rcases (hfits id hid).cur with hnone | hzero
    · rw [hnone] at hcur
      cases hcur
    · rw [hzero] at hcur
      cases hcur
      omega
  · exact fun id hid => (hfits id hid).bare
  · exact fun id hid => (hfits id hid).frame
  · exact fun id hid => (hfits id hid).children
  · intro h
    rw [hnode]
    exact hmain h
  · exact fun id hid => (hfits id hid).body
  · exact fun id hid => (hfits id hid).child_lt

lemma bare_withProgram (h : p.nodes = ({} : Project).nodes) (htext : 0 < text.length) :
    (p.withProgram name text).Bare text := by
  rw [withProgram_eq h]
  refine bare_withNodes (.inl rfl) htext ?_ ⟨nofun, nofun⟩ rfl nofun
  refine ⟨?_, ?_, ?_, ?_, ?_, ?_, ?_, ?_, trivial⟩
  all_goals
    refine ⟨⟨rfl, nofun, rfl, rfl, rfl, rfl, .inl rfl⟩, ?_, fun _ => rfl, ?_, nofun, ?_, ?_⟩
    · rintro _ _ ⟨⟩
      exact ⟨rfl, rfl⟩
    · simp
    · simp
    · simp [programNodes]

lemma bare_withMain (h : p.nodes = ({} : Project).nodes) (htext : 0 < text.length) :
    ((p.withProgram name text).withMain code).Bare text := by
  rw [withMain_eq h]
  refine bare_withNodes (.inr (Nat.lt_succ_self 12)) htext ?_ ⟨nofun, nofun⟩ rfl fun _ => rfl
  refine ⟨?_, ?_, ?_, ?_, ?_, ?_, ?_, ?_, ?_, ?_, ?_, ?_, ?_, trivial⟩
  all_goals
    refine ⟨⟨rfl, nofun, rfl, rfl, rfl, rfl, .inl rfl⟩, ?_, fun _ => rfl, ?_, ?_, ?_, ?_⟩
    · intro _ _ hframe
      cases hframe <;> exact ⟨rfl, rfl⟩
    · simp
    · simp [Kind.isBody]
    · simp
    · simp [programNodes, mainNodes]

end Project

/-! ### Names that nothing assigns -/

namespace Edit

variable {p : Project} {text name code : String}

lemma exists_findUnassigned_eq (h : p.Bare text) (hname : (p.node 1).name = name) :
    ∃ unassigned, findUnassigned name p =
      .ok () (p.update 1 fun node => { node with unassigned? := some unassigned }) := by
  have hsize : 1 < p.size := h.size
  have hfind := findUnassigned_first_eq (h.children 0 (by omega) (by decide)) hname
  have hreserved : ((unassignedNames p (p.postorder false 1)).partition fun name =>
      reservedNames.contains name).1 = [] := by
    rw [partition_eq_filter_filter, filter_eq_nil_iff]
    intro other hother
    obtain ⟨⟨id, hid, hkind, rfl⟩, -⟩ := mem_unassignedNames_iff.1 hother
    have hlt := (h.lt_of_below hsize (below_of_mem_postorderSteps hid)).2
    have := (h.node id hlt).name hkind
    simp only [isUnknownName, Bool.and_eq_true, Bool.not_eq_true'] at this
    rw [this.1.2]
    decide
  have hreserve : ∀ ids, p.reserve [] ids = p := by
    intro ids
    induction ids with
    | nil => rfl
    | cons _ _ ih => exact ih
  simp only [hreserved, hreserve] at hfind
  exact ⟨_, hfind⟩

lemma install_singleton_eq {head : Head} (id : Nat) (items : List Syntax)
    (hlambda : head.kind ≠ .lambda) (hfunc : head.kind ≠ .func) :
    install id [.node head items] p = install p.size items (p.make id (.ofHead head)) := by
  rw [install, installItem_eq hlambda hfunc, bind_assoc, make_bind]
  show (install p.size items >>= fun _ => pure ()) _ = _
  rw [bind_pure_unit]

lemma install_leaf_eq {head : Head} (id : Nat) (rest : List Syntax)
    (hlambda : head.kind ≠ .lambda) (hfunc : head.kind ≠ .func) :
    install id (.leaf head :: rest) p = install id rest (p.make id (.ofHead head)) := by
  rw [install, Syntax.leaf, installItem_eq hlambda hfunc, bind_assoc]
  rfl

lemma install_tree_eq {sp : Spacing} {ts : List Term} (hsize : p.size = 8) :
    install 3 [tree sp ts code] p = install 12 (statements sp 0 ts) (p.withMain code) := by
  rw [tree, install_singleton_eq 3 _ (by decide) (by decide), hsize,
    install_leaf_eq 8 _ (by decide) (by decide), install_leaf_eq 8 _ (by decide) (by decide),
    install_leaf_eq 8 _ (by decide) (by decide), install_singleton_eq 8 _ (by simp) (by simp)]
  simp only [size_make, hsize]
  rfl

end Edit

namespace Script

variable {sp : Spacing} {ts : List Term}

def outline (ts : List Term) : List Outline :=
  if ts = [] then [] else
    [.node .main "main" "" [.node .declares "" "" [], .node .returns "" "" [],
      .node .params "" "" [],
      .node .block "" "" (ts.map fun t => .node .statement "" "" [t.outline])]]

lemma outlines_statements (k : Int) : Syntax.outlines (statements sp k ts) =
    ts.map fun t => .node .statement "" "" [t.outline] := by
  induction ts generalizing k with
  | nil => rfl
  | cons t ts ih =>
    rw [statements, Syntax.outlines, ih, Syntax.outline, Syntax.outlines, t.outline_tree]
    rfl

lemma outlines_tree (code : String) :
    Syntax.outlines (if ts = [] then [] else [tree sp ts code]) = outline ts := by
  unfold outline
  split
  · rfl
  · simp [tree, Syntax.outlines, Syntax.outline, Syntax.leaf, outlines_statements]

lemma inners_statements (k : Int) : Syntax.Inners (statements sp k ts) := by
  induction ts generalizing k with
  | nil => trivial
  | cons t ts ih => exact ⟨⟨rfl, .inr ⟨t.inner_tree sp k, trivial⟩⟩, ih _⟩

lemma isFunc_tree (code : String) : (tree sp ts code).IsFunc :=
  .mk (.inr rfl) rfl rfl rfl nofun nofun ⟨rfl, .inr (inners_statements 0)⟩

lemma exists_install_statements {p : Project} {text : String} (sp : Spacing)
    (hts : ∀ t ∈ ts, t.Untyped) (hlines : (lines sp ts).length ≤ text.length) (hp : p.Bare text)
    (hsize : 12 < p.size) :
    ∃ q, Edit.install 12 (statements sp 0 ts) p = .ok () q ∧ q.Bare text ∧
      (q.node 1).name = (p.node 1).name ∧ { q with nodes := #[] } = { p with nodes := #[] } := by
  let I (q : Project) : Prop := q.Bare text ∧ (q.node 1).name = (p.node 1).name ∧
    { q with nodes := #[] } = { p with nodes := #[] }
  have hkind : ∀ head : Head, head.Bare text.length → head.kind ≠ .lambda ∧ head.kind ≠ .func := by
    intro head hhead
    have := hhead.kind
    constructor <;> (intro hkind; rw [hkind] at this; cases this)
  have hmake : ∀ q head id, I q → head.Bare text.length → 12 ≤ id →
      id < q.size → I (q.make id (.ofHead head)) := by
    intro q head id ⟨hq, hname, hrest⟩ hhead hleast hid
    refine ⟨hq.make hleast hid hhead.node hhead.kind rfl hhead.cur, ?_, hrest⟩
    rw [node_make_of_ne (by omega) (by omega), hname]
  obtain ⟨q, hrun, hq, -⟩ := Edit.exists_install_eq ⟨hkind, hmake⟩ (statements sp 0 ts)
    (eachOf_statements hts Int.le_rfl (by omega)) ⟨hp, rfl, rfl⟩ .refl hsize
  exact ⟨q, hrun, hq⟩

lemma exists_build_eq {p : Project} {text code : String} (name : String) (hts : ∀ t ∈ ts, t.Untyped)
    (hlines : (lines sp ts).length ≤ text.length) (htext : 0 < text.length)
    (hp : p.nodes = ({} : Project).nodes)
    (h : Parse.program.Yields (p.options.setting text)
      (if ts = [] then [] else [tree sp ts code]) ()) :
    ∃ q shown, Edit.build 3 text Parse.program (p.withProgram name text) = .ok () q ∧
      q.Bare text ∧ (q.node 1).name = name ∧
      { q with nodes := #[] } = { p with nodes := #[], shown } := by
  obtain ⟨shown, hrun⟩ := Edit.exists_build_run (p := p.withProgram name text) 3
    (by rw [options_withProgram]; exact h)
  let p' : Project := { p with shown }
  have hp' : p'.nodes = ({} : Project).nodes := hp
  have hshown : { p.withProgram name text with shown } = p'.withProgram name text := by
    rw [withProgram_eq hp, withProgram_eq hp']
    rfl
  rw [hrun, hshown]
  split
  · refine ⟨p'.withProgram name text, shown, rfl, bare_withProgram hp' htext, ?_, ?_⟩
    all_goals
      rw [withProgram_eq hp']
      rfl
  · have hsize : (p'.withProgram name text).size = 8 := by
      rw [withProgram_eq hp']
      rfl
    have hbare : ((p'.withProgram name text).withMain code).Bare text :=
      bare_withMain hp' htext
    rw [Edit.install_tree_eq hsize]
    rw [withMain_eq hp'] at hbare ⊢
    obtain ⟨q, hinstall, hq, hname, hrest⟩ :=
      exists_install_statements sp hts hlines hbare (Nat.lt_succ_self 12)
    exact ⟨q, shown, hinstall, hq, hname, hrest⟩

/-- A script of untyped expressions is loaded as a bare program. -/
lemma exists_load_eq (hts : ∀ t ∈ ts, IsLine sp t) (ends more : Nat) (name : String)
    (p : Project) (hp : p.nodes = ({} : Project).nodes) :
    ∃ text q, Edit.load name
        (String.ofList (Script.text sp ends ts ++ replicate more '\n')) p = .ok () q ∧
      q.Bare text ∧ q.options = p.options ∧ q.configured = p.configured ∧
      q.depth = p.depth ∧ q.Bears 3 (.node .funcs name "" (outline ts)) := by
  obtain ⟨m, hm, htext⟩ := exists_programText_eq sp ends more ts
  obtain ⟨shown, hload⟩ := Edit.exists_load_eq name
    (String.ofList (text sp ends ts ++ replicate more '\n')) p
  rw [htext] at hload
  let text := String.ofList (lines sp ts ++ replicate m '\n')
  have hlength : text.length = (lines sp ts).length + m := by
    rw [String.length_ofList, length_append, length_replicate]
  obtain ⟨code, hyields⟩ : ∃ code, Parse.program.Yields (p.options.setting text)
      (if ts = [] then [] else [tree sp ts code]) () := exists_yields_program hts hm rfl
  let p0 : Project := { p with text? := some text, shown }
  have hp0 : p0.nodes = ({} : Project).nodes := hp
  have hsize : p0.size = 1 := congrArg Array.size hp
  obtain ⟨p1, shown', hbuild, hbare, hname, hrest⟩ := exists_build_eq name
    (fun t ht => (hts t ht).untyped) (by omega) (by omega) hp0 hyields
  obtain ⟨unassigned, hfind⟩ := Edit.exists_findUnassigned_eq hbare hname
  have hrun : (do
      Edit.build (← Edit.makeProgram name text) text Parse.program
      Edit.findUnassigned name) p0 = .ok () _ :=
    Edit.bind_run (Edit.makeProgram_eq hsize) (Edit.bind_run hbuild hfind)
  refine ⟨text, _, hload.trans hrun, ?_, ?_, ?_, ?_, ?_⟩
  · refine hbare.congr size_update (fun id => apply_node_update fun _ => rfl) ?_
    intro id hid
    refine (apply_node_update (g := fun node : Node => node.backend = .unknown ∨
      node.backend = node.kind.bareRules) ?_).mpr (hbare.node id hid).backend
    exact fun _ => rfl
  · exact (congrArg options hrest :)
  · exact (congrArg configured hrest :)
  · exact (congrArg depth hrest :)
  · have hnode : p0.node = ({} : Project).node := node_congr hp0
    have htrees : ∀ u ∈ (if ts = [] then [] else [tree sp ts code]), u.IsFunc := by
      intro u hu
      split at hu
      · cases hu
      · rw [mem_singleton.mp hu]
        exact isFunc_tree code
    obtain ⟨q, hq, -, hbears⟩ := Edit.exists_build_eq name hsize (by rw [hnode]; rfl)
      (by rw [hnode]; rfl) (unruled_of_nodes_eq hp0) hyields htrees
    rw [hrun] at hq
    cases hq
    rwa [outlines_tree] at hbears

end Script

end ArmaGen
