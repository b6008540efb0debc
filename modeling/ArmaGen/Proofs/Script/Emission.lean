import ArmaGen.Proofs.Script.Rule

/-!
# Emitting bare programs

While a bare program is emitted, lines that include files and messages are added to it, and nothing
else in it changes but what is emitted for its nodes (`Project.Emits`). The pieces of a rule stand
between the texts of the children (`Edit.exists_emitNode_interleaved`).
-/

namespace ArmaGen

open List

/-! ### What emitting leaves as it is -/

/-- The node without its place in the source, what is emitted for it and the nodes below it. -/
def Node.face (node : Node) : Node :=
  { node with
    cur? := none, code? := none, foundLine? := none, str := "", ret := "", children := [] }

/-- A node that emitting adds: a line that includes a file, or an error. -/
structure Node.Added (node : Node) : Prop where
  backend : node.backend = .program
  children : node.children = []
  sort : node.kind = .include ∨ node.kind = .error ∧ '%' ∉ node.name.toList

lemma Node.Added.congr {node node' : Node} (h : node.Added) (hface : node'.face = node.face)
    (hchildren : node'.children = node.children) : node'.Added where
  backend := (congrArg Node.backend hface :).trans h.backend
  children := hchildren.trans h.children
  sort := by
    rw [show node'.kind = node.kind from (congrArg kind hface :),
      show node'.name = node.name from (congrArg name hface :)]
    exact h.sort

namespace Project

variable {p p' q : Project} {text : String} {id c least depth depth' : Nat}
  {seen seen' : List Nat}

/-- A bare project that is emitted by the rules of its nodes alone. -/
structure Standard (text : String) (p : Project) : Prop extends p.Configured text where
  rules : p.options.rules = []
  echo : p.options.echo = false

/-- A project in the course of emitting a bare one: what is told of the nodes seen is what is
emitted for their outlines. -/
structure Emits (q : Project) (text : String) (least depth : Nat) (seen : List Nat)
    (p : Project) : Prop extends p.Sited text where
  size_le : q.size ≤ p.size
  least_le : least ≤ p.size
  options : p.options = q.options
  configured : p.configured = true
  depth : p.depth = depth
  face : ∀ id < q.size, (p.node id).face = (q.node id).face
  children : ∀ id < q.size, id ≠ 2 → id ≠ 7 → (p.node id).children = (q.node id).children
  added : ∀ id < p.size, q.size ≤ id → (p.node id).Added
  lists : ∀ id : Nat, id ∈ [2, 7] → ∀ c : Nat, c ∈ (p.node id).children →
    q.size ≤ c ∧ c < p.size
  told : ∀ id ∈ seen, id < q.size → id ∉ [1, 2, 7] → (p.node id).str = (q.outline id).rendered

section

variable (h : q.Emits text least depth seen p)

include h

section

variable (hid : id < q.size)

include hid

lemma Emits.lt : id < p.size :=
  Nat.lt_of_lt_of_le hid h.size_le

lemma Emits.kind : (p.node id).kind = (q.node id).kind :=
  (congrArg Node.kind (h.face id hid) :)

lemma Emits.name : (p.node id).name = (q.node id).name :=
  (congrArg Node.name (h.face id hid) :)

lemma Emits.backend : (p.node id).backend = (q.node id).backend :=
  (congrArg Node.backend (h.face id hid) :)

end

lemma Emits.congr (hsited : p'.Sited text)
    (hsize : p'.size = p.size) (hoptions : p'.options = p.options)
    (hconfigured : p'.configured = p.configured) (hdepth : p'.depth = depth')
    (hface : ∀ id, (p'.node id).face = (p.node id).face)
    (hchildren : ∀ id, (p'.node id).children = (p.node id).children ∨
      id = 7 ∧ (p'.node id).children = [])
    (htold : ∀ id ∈ seen', id < q.size → id ∉ [1, 2, 7] →
      (p'.node id).str = (q.outline id).rendered) : q.Emits text least depth' seen' p' where
  toSited := hsited
  size_le := hsize ▸ h.size_le
  least_le := hsize ▸ h.least_le
  options := hoptions.trans h.options
  configured := hconfigured.trans h.configured
  depth := hdepth
  face id hid := (hface id).trans (h.face id hid)
  children id hid htwo hseven := by
    rcases hchildren id with heq | ⟨heq, -⟩
    · exact heq.trans (h.children id hid htwo hseven)
    · exact absurd heq hseven
  added id hid hle := by
    have hadded := h.added id (hsize ▸ hid) hle
    rcases hchildren id with heq | ⟨-, heq⟩
    · exact hadded.congr (hface id) heq
    · exact hadded.congr (hface id) (heq.trans hadded.children.symm)
  lists id hid c hc := by
    rw [hsize]
    rcases hchildren id with heq | ⟨-, heq⟩
    · exact h.lists id hid c (heq ▸ hc)
    · rw [heq] at hc
      cases hc
  told := htold

lemma Emits.mono (hsub : ∀ id ∈ seen', id ∈ seen) : q.Emits text least depth seen' p :=
  { h with told := fun id hid => h.told id (hsub id hid) }

lemma Emits.atLeast {n : Nat} (hn : n ≤ p.size) : q.Emits text n depth seen p :=
  { h with least_le := hn }

lemma Emits.remember (hr : p.Knows p') : q.Emits text least depth seen p' := by
  refine h.congr (h.toSited.knows hr) hr.size hr.options (congrArg Project.configured hr.rest :)
    (hr.depth.trans h.depth) (fun id => (congrArg Node.face (hr.settled id) :))
    (fun id => .inl (hr.children id)) fun id hid hlt hne => ?_
  rw [hr.str]
  exact h.told id hid hlt hne

lemma Emits.make {node : Node} (hsize : 8 ≤ q.size) (hid : id ∈ [2, 7]) (hnode : node.Added)
    (hcur : ∀ cur, node.cur? = some cur → 0 ≤ cur ∧ cur < text.length) :
    q.Emits text least depth seen (p.make id node) := by
  have hle := h.size_le
  obtain ⟨hlt, hpos⟩ : id < 8 ∧ 0 < id := by
    simp at hid
    omega
  have hp : id < p.size := by omega
  have hsame : ∀ {α : Type} (g : Node → α), (∀ node children, g { node with children } = g node) →
      ∀ j < q.size, g ((p.make id node).node j) = g (p.node j) :=
    fun _ hg j hj => apply_node_make hp (by omega) hg
  have hlists : ∀ j ∈ [2, 7], j < p.size := by
    simp
    omega
  refine ⟨?_, ?_, ?_, h.options, h.configured, h.depth, fun j hj => ?_, ?_, ?_, fun j hj => ?_,
    fun j hj hlt hne => ?_⟩
  · refine h.toSited.make hpos hp ?_ ?_ hcur <;>
      rcases hnode.sort with hkind | ⟨hkind, -⟩ <;> rw [hkind] <;> decide
  · rw [size_make]
    omega
  · rw [size_make]
    exact Nat.le_succ_of_le h.least_le
  · exact (hsame Node.face (fun _ _ => rfl) j hj).trans (h.face j hj)
  · intro j hj htwo hseven
    have hne : j ≠ id := by
      rintro rfl
      simp at hid
      omega
    rw [node_make_of_ne (by omega) hne]
    exact h.children j hj htwo hseven
  · exact forall_make (P := fun j new => q.size ≤ j → new.Added) hp h.added (fun _ hj => by omega)
      fun _ => ⟨hnode.backend, hnode.children, hnode.sort⟩
  · rw [size_make]
    refine forall_make (P := fun j new => j ∈ [2, 7] → ∀ c ∈ new.children, q.size ≤ c ∧
      c < p.size + 1) hp (fun j _ hj c hc => ?_) (fun hold hj => forall_mem_append.2
        ⟨hold hj, forall_mem_singleton.2 ⟨hle, Nat.lt_succ_self _⟩⟩) (fun hj => ?_) j
      (by rw [size_make]; exact Nat.lt_succ_of_lt (hlists j hj)) hj
    · exact ⟨(h.lists j hj c hc).1, Nat.lt_succ_of_lt (h.lists j hj c hc).2⟩
    · exact absurd (hlists _ hj) (Nat.lt_irrefl _)
  · exact (hsame Node.str (fun _ _ => rfl) j hlt).trans (h.told j hj hlt hne)

lemma Emits.update {f : Node → Node}
    (hf : ∀ node, { f node with str := node.str, children := node.children } = node)
    (hchildren : ∀ j, ((p.update id f).node j).children = (p.node j).children ∨
      j = 7 ∧ ((p.update id f).node j).children = [])
    (htold : ∀ j ∈ seen', j < q.size → j ∉ [1, 2, 7] →
      ((p.update id f).node j).str = (q.outline j).rendered) :
    q.Emits text least depth seen' (p.update id f) := by
  have hsame : ∀ {α : Type} {g : Node → α}
      (_ : ∀ node str children, g { node with str, children } = g node) j,
      g ((p.update id f).node j) = g (p.node j) := fun {_ g} hg _ => apply_node_update fun node =>
    (hg (f node) node.str node.children).symm.trans (congrArg g (hf node))
  exact h.congr (h.toSited.congr size_update (hsame fun _ _ _ => rfl) (hsame fun _ _ _ => rfl)
    (hsame fun _ _ _ => rfl) (hsame fun _ _ _ => rfl)) size_update rfl rfl h.depth
    (hsame fun _ _ _ => rfl) hchildren htold

lemma Emits.setStr {str : String} (hid : id < p.size)
    (hstr : id < q.size → id ∉ [1, 2, 7] → str = (q.outline id).rendered) :
    q.Emits text least depth (id :: seen) (p.update id fun node => { node with str }) := by
  refine h.update (fun _ => rfl) (fun j => .inl (apply_node_update fun _ => rfl))
    fun j hj hlt hne => ?_
  by_cases heq : j = id
  · rw [heq, node_update_self hid]
    exact hstr (heq ▸ hlt) (heq ▸ hne)
  · rw [node_update_of_ne heq]
    rcases mem_cons.mp hj with hj | hj
    · exact absurd hj heq
    · exact h.told j hj hlt hne

lemma Emits.setDepth {n : Nat} (hn : n = depth') :
    q.Emits text least depth' seen { p with depth := n } :=
  h.congr (h.toSited.congr rfl (fun _ => rfl) (fun _ => rfl) (fun _ => rfl) fun _ => rfl) rfl rfl
    rfl
    hn (fun _ => rfl) (fun _ => .inl rfl) h.told

lemma Emits.clear :
    q.Emits text least depth seen (p.update 7 fun node => { node with children := [] }) := by
  refine h.update (fun _ => rfl) (fun j => ?_) fun j hj hlt hne => ?_
  · by_cases heq : j = 7
    · rcases Nat.lt_or_ge 7 p.size with hlt | hge
      · exact .inr ⟨heq, by rw [heq, node_update_self hlt]⟩
      · exact .inl (by rw [heq, node_update_of_size_le hge])
    · exact .inl (by rw [node_update_of_ne heq])
  · exact Eq.trans (apply_node_update fun _ => rfl) (h.told j hj hlt hne)

end

/-! ### Nodes that can be emitted -/

lemma Bare.list (h : p.Bare text) (hid : id ∈ [2, 7]) :
    id < p.size ∧ p.Below 1 id ∧ (p.node id).children = [] := by
  have hsize := h.eight_le
  have hlt : id < p.size := by
    simp at hid
    omega
  refine ⟨hlt, .child .self ?_, ?_⟩
  · rw [h.children 1 (by omega) (by decide)]
    exact (by decide : ∀ id ∈ [2, 7], id ∈ [2, 3, 4, 5, 6, 7]) id hid
  · rw [h.children id hlt ((by decide : ∀ id ∈ [2, 7], id < 12) id hid)]
    simp at hid
    rcases hid with rfl | rfl <;> rfl

lemma Emits.children_eq (h : q.Emits text least depth seen p) (hq : q.Bare text)
    (hid : id < q.size) (hc : c ∈ (q.node id).children) :
    (p.node id).children = (q.node id).children := by
  have hlist : ∀ list ∈ [2, 7], id ≠ list := by
    rintro _ hlist rfl
    rw [(hq.list hlist).2.2] at hc
    cases hc
  exact h.children id hid (hlist 2 (by decide)) (hlist 7 (by decide))

lemma Bare.not_mem_rendered (h : p.Bare text) (hid : id < p.size) :
    '%' ∉ (p.outline id).rendered.toList := by
  induction hn : p.size - id using Nat.strongRecOn generalizing id with
  | ind n ih =>
    rw [h.outline_eq hid, Outline.rendered, Outline.renderedAll_eq_map, map_map]
    refine Kind.not_mem_rendered (fun hname => ?_) fun t ht => ?_
    · have hword := (h.node id hid).name hname
      simp only [isUnknownName, Bool.and_eq_true] at hword
      intro hmem
      exact absurd (all_eq_true.mp hword.1.1 _ hmem) (by decide)
    · obtain ⟨c, hc, rfl⟩ := mem_map.mp ht
      have := h.child_lt id hid c hc
      exact ih _ (by omega) this.2 rfl

lemma Emits.typeless (h : q.Emits text least depth seen p) (hq : q.Bare text) (hmain : 8 ≤ id)
    (hid : id < q.size) : p.Typeless id := by
  have hsize := hq.twelve_lt (by omega)
  have hnode := hq.node id hid
  have hkind : ∀ j < q.size, (p.node j).kind = (q.node j).kind := fun _ hj => h.kind hj
  have habove : ∀ j < q.size, (p.node j).parent = (q.node j).parent := fun j hj =>
    (congrArg Node.parent (h.face j hj) :)
  refine ⟨⟨⟨8, 9, 11, ⟨(hq.encloses_main hmain hid).congr h.size_le hkind habove,
    ⟨10, [12], ?_⟩, ?_, ?_⟩, ?_, ?_⟩, ?_, ?_, ?_⟩, ?_⟩
  · rw [h.children 8 (by omega) (by decide) (by decide)]
    exact hq.children 8 (by omega) (by decide)
  · rw [hkind 9 (by omega)]
    exact (hq.frame 9 (by omega) .declares 8 rfl).1
  · exact h.lt (by omega)
  · rw [h.children 9 (by omega) (by decide) (by decide)]
    exact hq.children 9 (by omega) (by decide)
  · rw [h.children 11 (by omega) (by decide) (by decide)]
    exact hq.children 11 (by omega) (by decide)
  · exact (congrArg Node.declare? (h.face id hid) :).trans hnode.declare?
  · rw [hkind id hid]
    exact Kind.isField_eq_false hnode.kind
  · rw [h.backend hid]
    exact hnode.isRecord
  · exact (congrArg Node.type (h.face id hid) :).trans hnode.type

lemma Emits.exists_error_eq {value : String} (h : q.Emits text least depth seen p)
    (hq : q.Bare text)
    (hpos : 0 < id) (hid : id < q.size) (hvalue : '%' ∉ value.toList) :
    ∃ p', Edit.error id value p = .ok () p' ∧ q.Emits text least depth seen p' := by
  have hsize := hq.eight_le
  have hlog : (p.node 1).children[5]? = some 7 := by
    rw [h.children 1 hq.size (by decide) (by decide), hq.children 1 hq.size (by decide)]
    rfl
  obtain ⟨p₁, node, hr, hmessage, hrun | hrun⟩ := Edit.exists_message_eq .error h.toSited hpos
    (h.lt hid) hlog hvalue
  · exact ⟨p₁, hrun.2, h.remember hr⟩
  · exact ⟨_, hrun, (h.remember hr).make hsize (by decide)
      ⟨hmessage.backend, hmessage.children, .inr ⟨hmessage.kind, hmessage.name⟩⟩ hmessage.cur⟩

lemma Bare.kind_main (h : p.Bare text) (hid : id < p.size) (hkind : (p.node id).kind = .main) :
    id = 8 := by
  have hlow : 8 ≤ id := h.le_of_kind hid hkind (by decide)
  have hhigh := h.lt_of_kind hid (by rw [hkind]; rfl)
  obtain rfl | rfl | rfl | rfl : id = 8 ∨ id = 9 ∨ id = 10 ∨ id = 11 := by omega
  · rfl
  all_goals
    rw [(h.frame _ hid _ 8 rfl).1] at hkind
    cases hkind

lemma Bare.kind_not_mem (h : p.Bare text) (hpos : 0 < id) (hid : id < p.size)
    (hne : id ∉ [1, 2, 7]) : (p.node id).kind ∉ [.project, .program, .includes, .log] := by
  rcases Nat.lt_or_ge id 12 with hlt | hge
  · simp at hne
    obtain rfl | rfl | rfl | rfl | rfl | rfl | rfl | rfl :
      id = 3 ∨ id = 4 ∨ id = 5 ∨ id = 6 ∨ id = 8 ∨ id = 9 ∨ id = 10 ∨ id = 11 := by omega
    all_goals
      rw [(h.frame _ hid _ _ rfl).1]
      decide
  · have hbody := (h.body id hid hge).1
    intro hmem
    simp at hmem
    rcases hmem with heq | heq | heq | heq <;> rw [heq] at hbody <;> cases hbody

lemma Bare.child_not_mem (h : p.Bare text) (hpos : 1 < id) (hid : id < p.size)
    (hc : c ∈ (p.node id).children) : c ∉ [1, 2, 7] := by
  have hlt := h.child_lt id hid c hc
  rcases Nat.lt_or_ge id 7 with hid7 | hid7
  · rw [h.children id hid (by omega)] at hc
    obtain rfl | rfl | rfl | rfl | rfl : id = 2 ∨ id = 3 ∨ id = 4 ∨ id = 5 ∨ id = 6 := by omega
    case inr.inl =>
      rw [Script.below] at hc
      split at hc
      · cases hc
      · rw [mem_singleton.mp hc]
        decide
    all_goals cases hc
  · simp
    omega

lemma Emits.ready (h : q.Emits text least depth seen p) (hq : q.Standard text)
    (hbelow : q.Below 1 id) (hid : id ∉ [1, 2, 7])
    (hseen : ∀ c : Nat, c ∈ (q.node id).children → c ∈ seen) :
    p.Ready id ((q.node id).children.map fun c => (q.outline c).rendered) := by
  obtain ⟨hpos, hlt⟩ := hq.lt_of_below hq.size hbelow
  have hpos' : 1 < id := by
    simp at hid
    omega
  have hroot := hq.below_program.trans hbelow
  have hkind := h.kind hlt
  have hchildren : (p.node id).children = (q.node id).children := by
    refine h.children id hlt ?_ ?_
    · rintro rfl
      exact hid (by decide)
    · rintro rfl
      exact hid (by decide)
  have hchild := hq.child_lt id hlt
  have hmain : (q.node id).kind.isBody = true → 8 ≤ id := by
    have hnone : ∀ part ∈ Script.frame.take 8, part.1.isBody = false := by decide
    refine fun hbody => hq.le_of_kind hlt rfl ⟨by decide, fun part hpart heq => ?_⟩
    rw [← heq, hnone part hpart] at hbody
    cases hbody
  refine ⟨?_, ?_, ?_, ?_, ?_, ?_, ?_, ?_, ?_⟩
  · rw [h.backend hlt, hkind]
    exact hq.chosen id hroot
  · rw [length_map, hkind]
    exact hq.complete id hroot
  · rw [hchildren]
    refine map_congr_left fun c hc => ?_
    exact h.told c (hseen c hc) (hchild c hc).2 (hq.child_not_mem hpos' hlt hc)
  · intro t ht
    obtain ⟨c, hc, rfl⟩ := mem_map.mp ht
    exact hq.not_mem_rendered (hchild c hc).2
  · intro c hc
    rw [hchildren] at hc
    rw [h.kind (hchild c hc).2]
    exact (hq.node c (hchild c hc).2).kind
  · intro hbody
    rw [hkind] at hbody
    refine ⟨h.typeless hq.toBare (hmain hbody) hlt, fun c hc => ?_⟩
    rw [hchildren] at hc
    have := hchild c hc
    exact h.typeless hq.toBare (Nat.le_trans (hmain hbody) (Nat.le_of_lt this.1)) this.2
  · intro hbody value p' hvalue hrun
    rw [hkind] at hbody
    obtain ⟨p₁, hrun1, h1⟩ := h.exists_error_eq hq.toBare hpos hlt hvalue
    obtain rfl : p₁ = p' := by
      rw [hrun1] at hrun
      cases hrun
      rfl
    exact h1.typeless hq.toBare (hmain hbody) hlt
  · intro heq
    rw [hkind] at heq
    obtain rfl := hq.kind_main hlt heq
    have hsize := hq.twelve_lt (by omega)
    refine ⟨9, [10, 11, 12], hchildren.trans (hq.children 8 hlt (by decide)), ?_⟩
    rw [h.children 9 (by omega) (by decide) (by decide)]
    exact hq.children 9 (by omega) (by decide)
  · intro hmem
    rw [hkind] at hmem
    rw [hchildren]
    refine hq.children_eq_nil hlt ?_ ?_
    · simp at hmem
      rcases hmem with heq | heq | heq | heq | heq <;> rw [heq] <;> rfl
    · simp at hmem
      rcases hmem with heq | heq | heq | heq | heq <;> rw [heq] <;> decide

end Project

namespace Edit

open Template

variable {p p₁ q : Project} {text : String} {id least depth : Nat} {seen : List Nat}
  {emitter : Emitter} {emission : Emission} {template : String}

/-! ### Emitting one node -/

lemma fillIn_eq {props : Properties} {filled : String} (hprops : properties id p = .ok props p₁)
    (hfill : fill props template = .ok filled) : fillIn id template p = .ok filled p₁ := by
  have hbody : (do
      let properties ← properties id
      (fill properties template)) p = .ok filled p₁ := by
    refine bind_run hprops ?_
    rw [hfill]
    rfl
  show EStateM.tryCatch _ _ p = _
  delta EStateM.tryCatch
  rw [hbody]

lemma userRule?_eq (h : p.options.rules = []) : userRule? id p = .ok none p := by
  show EStateM.Result.ok ((p.options.rules.lookup _).or (p.options.rules.lookup _)) p = _
  rw [h]
  rfl

lemma knows_ret (id : Nat) (ret : String) : p.Knows (p.update id fun node => { node with ret }) :=
  .update (.refl p) (fun _ => rfl) (.inl fun _ => rfl) (.inl fun _ => rfl) (.inl fun _ => rfl)

lemma emitNode_eq {props : Properties} {literal filled : String}
    (hrule : emissionOf emitter id p = .ok (emission, literal) p₁)
    (htemplate : emission.template (p₁.node id).children.length = .ok template)
    (hprops : properties id (p₁.update id fun node => { node with ret := literal }) = .ok props q)
    (hfill : fill props template = .ok filled) (hecho : q.options.echo = false) :
    emitNode emitter id p = .ok () (q.update id fun node => { node with str := filled }) := by
  have hcount : count id (p₁.update id fun node => { node with ret := literal }) =
      .ok (p₁.node id).children.length (p₁.update id _) :=
    congrArg (fun ids : List Nat => EStateM.Result.ok ids.length _)
      (Project.apply_node_update (g := Node.children) fun _ => rfl)
  refine bind_run hrule (bind_run rfl (bind_run hcount ((lift_bind htemplate).trans ?_)))
  refine bind_run (fillIn_eq hprops hfill) ?_
  show (if (isEchoed (q.node id).kind && q.options.echo) = true then _ else _ : Edit Unit) q = _
  rw [hecho, Bool.and_false]
  rfl

/-- Two pieces are those around, with nothing in between. -/
lemma template_pieces (first last : String) (between : List String) (n : Nat) :
    (Emission.pieces (first :: between ++ [last])).template n =
      .ok (Emission.assemble first between last n) := by
  cases between with
  | nil => rcases n with _ | _ | n <;> rfl
  | cons piece rest =>
    rw [cons_append, Emission.template, dropLast_concat, getLastD_concat] <;> simp

/-- A rule that gives pieces sets them around and between what is emitted for the children of the
node, which is taken as it stands. -/
theorem exists_emitNode_interleaved {first last literal : String} {between : List String}
    {props : Properties}
    (hrule : emissionOf emitter id p = .ok (.pieces (first :: between ++ [last]), literal) q)
    (hplain : ∀ piece ∈ first :: between ++ [last], '%' ∉ piece.toList)
    (hfit : (q.node id).children.length < 2 ∨ between.length < (q.node id).children.length)
    (hecho : q.options.echo = false) (hid : id < q.size)
    (hprops : properties id (q.update id fun node => { node with ret := literal }) = .ok props r) :
    ∃ r, emitNode emitter id p = .ok () r ∧ (r.node id).str = first ++ interleaved between last
        ((q.node id).children.map fun c => (q.node c).str) ∧
      ∀ j ≠ id, (r.node j).str = (q.node j).str := by
  obtain ⟨hr, node, line, cur, code, rfl⟩ := consults_properties hprops
  have hret := (knows_ret (p := q) id literal).toRemembers
  rw [hret.children, funext hret.str] at hprops
  replace hr := hret.trans hr
  rw [cons_append, forall_mem_cons, forall_mem_append, forall_mem_singleton] at hplain
  rw [← length_map (f := fun c => (q.node c).str)] at hfit
  have hfilled := (node.tells_properties line cur code _).filled_pieces
    (filled_plain hplain.1) hplain.2.1 hplain.2.2 hfit
  rw [← String.toList_append, length_map] at hfilled
  refine ⟨_, emitNode_eq hrule (template_pieces ..) hprops hfilled.fill_eq
    (by rw [hr.options, hecho]), ?_, fun j hj => ?_⟩
  · rw [Project.node_update_self (hr.size.symm ▸ hid), String.ofList_toList]
  · rw [Project.node_update_of_ne hj, hr.str]

theorem exists_emitNode_interleaved_sample : ∃ p r : Project,
    ((p.node 0).children.map fun c => (p.node c).str) = ["50%", "%(0)s", "c"] ∧
      emitNode Edit.emitter 0 p = .ok () r ∧ (r.node 0).str = "(50%, %(0)s, c)" := by
  let text str : Node := { kind := .var, str }
  let p : Project :=
    { nodes := #[{ kind := .project, cur? := some 0, code? := some "", children := [1, 2, 3] },
                 text "50%", text "%(0)s", text "c"]
      options := { rules := [("Project", .pieces ["(", ", ", ")"])] } }
  have hrule : emissionOf Edit.emitter 0 p = .ok (.pieces ("(" :: [", "] ++ [")"]), _) p := rfl
  obtain ⟨r, hrun, hstr, -⟩ := exists_emitNode_interleaved hrule (by decide) (.inr (by decide)) rfl
    (by decide) rfl
  exact ⟨p, r, rfl, hrun, hstr⟩

lemma exists_emitNode_of_rule (hq : q.Standard text) (hoptions : p.options = q.options)
    (hrun : ruleEmission emitter id p = .ok emission p₁)
    (h : q.Emits text least depth seen p₁) (hid : id < p₁.size)
    (htemplate : emission.template (p₁.node id).children.length = .ok template)
    (hfill : ∀ (node : Node) line cur code, node.face = (p₁.node id).face → ∃ filled,
      fill (node.properties line cur code ((p₁.node id).children.map fun c => (p₁.node c).str))
        template = .ok filled ∧
      (id < q.size → id ∉ [1, 2, 7] → filled = (q.outline id).rendered)) :
    ∃ p', emitNode emitter id p = .ok () p' ∧ q.Emits text least depth (id :: seen) p' := by
  obtain ⟨props, p₂, hprops, hr, node, line, cur, code, hnode, rfl⟩ :=
    exists_properties_eq hid h.toSited (knows_ret id emission.literal)
  obtain ⟨filled, hfilled, htold⟩ := hfill node line cur code (congrArg Node.face hnode :)
  have h₂ := h.remember hr
  have hrule : emissionOf emitter id p = .ok (emission, emission.literal) p₁ :=
    bind_run (userRule?_eq (by rw [hoptions, hq.rules])) (bind_ok hrun)
  exact ⟨_, emitNode_eq hrule htemplate hprops hfilled (by rw [h₂.options, hq.echo]),
    h₂.setStr (hr.size.symm ▸ hid) htold⟩

lemma ruleEmission_of_program {kind : Kind} {rule : Rule}
    (hbackend : (p.node id).backend = .program) (hkind : (p.node id).kind = kind)
    (hrule : Rule.programRule? kind = some rule)
    (hrun : (rule id).run emitter p = .ok (some emission) p₁) :
    ruleEmission emitter id p = .ok emission p₁ := by
  refine ruleEmission_of_ok ?_ ?_ hrun
  · rw [hbackend]
    rfl
  · rw [hbackend, hkind]
    exact hrule

lemma mem_of_mem_splitSteps {sep piece cs part : List Char} {skip : Nat} {c : Char}
    (hpart : part ∈ splitSteps sep skip piece cs) (hc : c ∈ part) : c ∈ piece ∨ c ∈ cs := by
  fun_induction splitSteps sep skip piece cs with
  | case1 _ piece =>
    rw [mem_singleton.mp hpart] at hc
    exact .inl (mem_reverse.mp hc)
  | case2 skip piece d rest ih =>
    rcases ih hpart with hmem | hmem
    · exact .inl hmem
    · exact .inr (.tail _ hmem)
  | case3 piece d rest _ ih =>
    rcases mem_cons.mp hpart with rfl | hpart
    · exact .inl (mem_reverse.mp hc)
    · rcases ih hpart with hmem | hmem
      · cases hmem
      · exact .inr (.tail _ hmem)
  | case4 piece d rest _ ih =>
    rcases ih hpart with hmem | hmem
    · rcases mem_cons.mp hmem with rfl | hmem
      · exact .inr (.head _)
      · exact .inl hmem
    · exact .inr (.tail _ hmem)

lemma not_mem_head_splitText {sep : String} (h : '%' ∉ text.toList) :
    '%' ∉ ((splitText sep text).head?.getD "").toList := by
  cases hhead : (splitText sep text).head? with
  | none => exact not_mem_nil
  | some part =>
    obtain ⟨cs, hcs, rfl⟩ := mem_map.mp (mem_of_head? hhead)
    intro hmem
    rw [Option.getD_some, String.toList_ofList] at hmem
    rcases mem_of_mem_splitSteps hcs hmem with hnil | htext
    · cases hnil
    · exact h htext

section

variable (hq : q.Standard text) (h : q.Emits text least depth seen p)

include hq h

/-- A node of a bare program is emitted, unless it is a quotient of matrices. -/
lemma exists_emitNode_of_ready (hbelow : q.Below 1 id) (hid : id ∉ [1, 2, 7])
    (hseen : ∀ c : Nat, c ∈ (q.node id).children → c ∈ seen)
    (hne : (q.node id).kind ≠ .matrixDivision) :
    ∃ p', emitNode emitter id p = .ok () p' ∧ q.Emits text least depth (id :: seen) p' := by
  obtain ⟨hpos, hlt⟩ := hq.lt_of_below hq.size hbelow
  have hkind : (p.node id).kind = (q.node id).kind := h.kind hlt
  have hsort : (p.node id).kind ∉ [.project, .program, .includes, .log, .matrixDivision] := by
    have := hq.kind_not_mem hpos hlt hid
    rw [hkind]
    simp only [mem_cons, not_mem_nil, or_false, not_or] at this ⊢
    exact ⟨this.1, this.2.1, this.2.2.1, this.2.2.2, hne⟩
  obtain ⟨note, emission, template, hrule, hnote, htemplate, hfilled⟩ := renders_of_ready
    emitter (h.ready hq hbelow hid hseen) (hkind ▸ (hq.node id hlt).kind) hsort
  obtain ⟨p₁, hremark, h1⟩ :
      ∃ p₁, remark id note p = .ok () p₁ ∧ q.Emits text least depth seen p₁ := by
    cases note with
    | none => exact ⟨p, rfl, h⟩
    | some value => exact h.exists_error_eq hq.toBare hpos hlt (hnote value rfl)
  have hready := h1.ready hq hbelow hid hseen
  have hcount : (p₁.node id).children.length =
      ((q.node id).children.map fun c => (q.outline c).rendered).length := by
    rw [← hready.strs, length_map]
  refine exists_emitNode_of_rule hq h.options (hrule.trans (bind_ok hremark)) h1
    (h1.lt hlt) (hcount ▸ htemplate) fun node line cur code hface => ?_
  have hname : node.name = (p.node id).name :=
    (congrArg Node.name hface :).trans ((h1.name hlt).trans (h.name hlt).symm)
  have htells := node.tells_properties line cur code
    ((q.node id).children.map fun c => (q.outline c).rendered)
  rw [hname] at htells
  refine ⟨_, ?_, fun _ _ => rfl⟩
  rw [hready.strs, (hfilled _ htells).fill_eq, String.ofList_toList, hq.outline_eq hlt,
    Outline.rendered, Outline.renderedAll_eq_map, map_map, hkind, h.name hlt]
  rfl

lemma emitNode_matrixDivision (hbelow : q.Below 1 id)
    (hseen : ∀ c : Nat, c ∈ (q.node id).children → c ∈ seen)
    (hkind : (q.node id).kind = .matrixDivision) : emitNode emitter id p = .error .wrongSort p := by
  have hlt := (hq.lt_of_below hq.size hbelow).2
  have hmain : 8 ≤ id := hq.le_of_kind hlt hkind (by decide)
  have hid : id ∉ [1, 2, 7] := by
    simp
    omega
  have hrun := ruleEmission_matrixDivision emitter (h.ready hq hbelow hid hseen)
    ((h.kind hlt).trans hkind)
  exact bind_error (bind_run (userRule?_eq (by rw [h.options, hq.rules])) (bind_error hrun))

lemma exists_emitNode_list (hid : id ∈ [2, 7]) :
    ∃ p', emitNode emitter id p = .ok () p' ∧ q.Emits text least depth (id :: seen) p' := by
  obtain ⟨hlt, hbelow, -⟩ := hq.list hid
  obtain ⟨sep, hsep, hrun⟩ : ∃ sep : String, '%' ∉ sep.toList ∧
      ruleEmission emitter id p = .ok (.around "" sep "") p := by
    have hbackend := (h.backend hlt).trans (hq.chosen id (hq.below_program.trans hbelow))
    have hkind := h.kind hlt
    simp at hid
    rcases hid with rfl | rfl
    · rw [(hq.frame 2 hlt .includes 1 rfl).1] at hbackend hkind
      exact ⟨"\n", by decide, ruleEmission_of_program hbackend hkind rfl rfl⟩
    · rw [(hq.frame 7 hlt .log 1 rfl).1] at hbackend hkind
      exact ⟨"\n\n", by decide, ruleEmission_of_program hbackend hkind rfl rfl⟩
  refine exists_emitNode_of_rule hq h.options hrun h (h.lt hlt)
    rfl fun node line cur code hface => ?_
  have htells := node.tells_properties line cur code
    ((p.node id).children.map fun c => (p.node c).str)
  have hfilled := htells.filled_around (show Filled _ "".toList [] from .nil) hsep
    (show '%' ∉ "".toList by decide)
  rw [length_map] at hfilled
  refine ⟨_, hfilled.fill_eq, fun _ hne => ?_⟩
  refine absurd (.tail _ hid) hne

lemma exists_emitNode_added (hle : q.size ≤ id) (hid : id < p.size) :
    ∃ p', emitNode emitter id p = .ok () p' ∧ q.Emits text least depth (id :: seen) p' := by
  have hadded := h.added id hid hle
  rcases hadded.sort with hkind | ⟨hkind, hname⟩
  · have hrun : ruleEmission emitter id p = .ok (.text "%(name)s") p :=
      ruleEmission_of_program hadded.backend hkind rfl rfl
    refine exists_emitNode_of_rule hq h.options hrun h hid rfl fun node line cur code hface => ?_
    have htells := node.tells_properties line cur code
      ((p.node id).children.map fun c => (p.node c).str)
    exact ⟨_, htells.filled_name.fill_eq, fun hlt => absurd hlt (Nat.not_lt.mpr hle)⟩
  · obtain ⟨c, hc⟩ := h.exists_inherits h.cur_root hid
    obtain ⟨p₁, hcur, hr⟩ := finds_cur (.refl p) hid hc
    have hrun : ruleEmission emitter id p = .ok _ p₁ :=
      ruleEmission_of_program hadded.backend hkind rfl (bind_ok hcur)
    refine exists_emitNode_of_rule hq h.options hrun (h.remember hr) (hr.size.symm ▸ hid) rfl
      fun node line cur code _ => ?_
    exact ⟨_, fill_message node line cur code _ (not_mem_head_splitText hname) c.toNat,
      fun hlt => absurd hlt (Nat.not_lt.mpr hle)⟩

/-! ### Emitting the program -/

lemma includesOf_eq : includesOf 1 p = .ok 2 p := by
  have hsize : 1 < p.size := h.lt hq.size
  refine bind_run (program_eq h.toSited Nat.one_pos hsize) ?_
  refine child_natCast_eq ?_
  rw [h.children 1 hq.size (by decide) (by decide), hq.children 1 hq.size (by decide)]
  rfl

lemma exists_addInclude_eq (line : String) :
    ∃ p', addInclude 1 line p = .ok () p' ∧ q.Emits text least depth seen p' := by
  have hsize := hq.eight_le
  obtain ⟨there, hthere⟩ : ∃ there, hasChild 2 line p = .ok there p := ⟨_, rfl⟩
  have hrun : addInclude 1 line p = (if (!line.isEmpty && !there) = true then do
      let _ ← make 2 { kind := .include, name := line, value := ← value 2, backend := .program }
    else pure ()) p :=
    bind_run (includesOf_eq hq h) (bind_ok hthere)
  rw [hrun]
  split
  · exact ⟨_, rfl, h.make hsize (by decide) ⟨rfl, rfl, .inl rfl⟩ nofun⟩
  · exact ⟨p, rfl, h⟩

lemma exists_emitNode_program (htree : ∀ p, q.Emits text least depth seen p →
      ∃ p', emitter.tree 2 p = .ok () p' ∧ q.Emits text least depth seen p') :
    ∃ p', emitNode emitter 1 p = .ok () p' ∧ q.Emits text least depth (1 :: seen) p' := by
  have hbackend := (h.backend hq.size).trans (hq.chosen 1 hq.below_program)
  have hkind := h.kind hq.size
  rw [hq.kind_program] at hbackend hkind
  obtain ⟨p₁, hincludes, h1⟩ : ∃ p₁, (Emit.includeArmadillo 1).run emitter p = .ok () p₁ ∧
      q.Emits text least depth seen p₁ := by
    obtain ⟨names, hnames⟩ : ∃ names, Edit.names 2 p = .ok names p := ⟨_, rfl⟩
    obtain ⟨p₁, hfile, h1⟩ := exists_addInclude_eq hq h "#include <armadillo>"
    obtain ⟨p2, hspace, h2⟩ := exists_addInclude_eq hq h1 "using namespace arma ;"
    obtain ⟨p3, hemit, h3⟩ := htree p2 h2
    have hrun : (Emit.includeArmadillo 1).run emitter p =
        (if (!(names.contains "#include <armadillo>" &&
            names.contains "using namespace arma ;")) = true then do
          addInclude 1 "#include <armadillo>"
          addInclude 1 "using namespace arma ;"
          emitter.tree 2
        else pure ()) p := by
      refine rule_bind_run (includesOf_eq hq h) ?_
      refine rule_bind_run hnames ?_
      split <;> rfl
    rw [hrun]
    split
    · exact ⟨p3, bind_run hfile (bind_run hspace hemit), h3⟩
    · exact ⟨p, rfl, h⟩
  have hrun : ruleEmission emitter 1 p = .ok (.text "") p₁ :=
    ruleEmission_of_program hbackend hkind rfl (bind_ok hincludes)
  refine exists_emitNode_of_rule hq h.options hrun h1
    (h1.lt hq.size) rfl fun node line cur code _ => ?_
  exact ⟨_, Filled.nil.fill_eq, fun _ hne => absurd (by decide) hne⟩

end

end Edit

end ArmaGen
