import ArmaGen.Proofs.Script.Emission

/-!
# Emitting nodes in order

The nodes of a bare program are gone over each after the nodes below it, so that all of them are
emitted (`Edit.exists_emit_eq`), unless there is a quotient of matrices among them
(`Edit.exists_emit_error`).
-/

namespace ArmaGen.Edit

open List

variable {p p₁ q : Project} {text : String} {id least depth : Nat} {seen : List Nat}
  {emitter : Emitter}

/-! ### Emitting nodes in order -/

/-- The lines to be included are emitted as the others are. -/
def EmitsIncludes (q : Project) (text : String) (least depth : Nat) (emitter : Emitter) : Prop :=
  ∀ seen p, q.Emits text least depth seen p →
    ∃ p', emitter.tree 2 p = .ok () p' ∧ q.Emits text least depth seen p'

lemma exists_emitNode_eq (hq : q.Standard text) (h : q.Emits text least depth seen p)
    (hid : id < least)
    (hbelow : id < q.size → q.Below 1 id ∧ ∀ c : Nat, c ∈ (q.node id).children → c ∈ seen)
    (hne : id < q.size → (q.node id).kind ≠ .matrixDivision)
    (htree : id = 1 → EmitsIncludes q text least depth emitter) :
    ∃ p', emitNode emitter id p = .ok () p' ∧ q.Emits text least depth (id :: seen) p' := by
  rcases Nat.lt_or_ge id q.size with hlt | hge
  · obtain ⟨hbelow, hseen⟩ := hbelow hlt
    by_cases hone : id = 1
    · subst hone
      exact exists_emitNode_program hq h (htree rfl seen)
    by_cases hlist : id ∈ [2, 7]
    · exact exists_emitNode_list hq h hlist
    · refine exists_emitNode_of_ready hq h hbelow ?_ hseen (hne hlt)
      rw [mem_cons, not_or]
      exact ⟨hone, hlist⟩
  · exact exists_emitNode_added hq h hge (Nat.lt_of_lt_of_le hid h.least_le)

/-- Nodes in an order in which they can be emitted, after some that are. -/
def Ordered (q : Project) (size : Nat) (seen : List Nat) : List Nat → Prop
  | [] => True
  | id :: ids => id < size ∧
      (id < q.size → q.Below 1 id ∧ ∀ c : Nat, c ∈ (q.node id).children → c ∈ seen) ∧
      Ordered q size (id :: seen) ids

variable {ids : List Nat}

/-- Nodes are emitted in order, up to the first quotient of matrices. -/
lemma exists_forM_eq (hq : q.Standard text) (h : q.Emits text least depth seen p)
    (hids : Ordered q least seen ids)
    (htree : 1 ∈ ids → EmitsIncludes q text least depth emitter) :
    (∃ p', ids.forM (emitNode emitter) p = .ok () p' ∧
      q.Emits text least depth (ids.reverse ++ seen) p') ∧
      (∀ id ∈ ids, id < q.size → (q.node id).kind ≠ .matrixDivision) ∨
    (∃ failure p', ids.forM (emitNode emitter) p = .error failure p') ∧
      ∃ id ∈ ids, id < q.size ∧ (q.node id).kind = .matrixDivision := by
  induction ids generalizing p seen with
  | nil => exact .inl ⟨⟨p, rfl, h⟩, nofun⟩
  | cons id ids ih =>
    obtain ⟨hid, hbelow, hids⟩ := hids
    by_cases hself : id < q.size ∧ (q.node id).kind = .matrixDivision
    · obtain ⟨hbelow, hseen⟩ := hbelow hself.1
      exact .inr ⟨⟨.wrongSort, p, bind_error (emitNode_matrixDivision hq h hbelow hseen hself.2)⟩,
        id, .head _, hself⟩
    · have hne : id < q.size → (q.node id).kind ≠ .matrixDivision :=
        fun hlt heq => hself ⟨hlt, heq⟩
      obtain ⟨p₁, hrun1, h1⟩ := exists_emitNode_eq hq h hid hbelow hne
        fun hone => htree (hone ▸ mem_cons_self ..)
      rcases ih h1 hids fun hone => htree (.tail _ hone) with
        ⟨⟨p2, hrun2, h2⟩, hnone⟩ | ⟨⟨failure, p', hrun⟩, j, hj, hdivision⟩
      · refine .inl ⟨⟨p2, bind_run hrun1 hrun2, ?_⟩, forall_mem_cons.2 ⟨hne, hnone⟩⟩
        rw [reverse_cons, append_assoc]
        exact h2
      · exact .inr ⟨⟨failure, p', bind_run hrun1 hrun⟩, j, .tail _ hj, hdivision⟩

lemma Ordered.append {size : Nat} {xs ys : List Nat} (hxs : Ordered q size seen xs)
    (hys : Ordered q size (xs.reverse ++ seen) ys) : Ordered q size seen (xs ++ ys) := by
  induction xs generalizing seen with
  | nil => exact hys
  | cons id xs ih =>
    obtain ⟨hid, hbelow, hxs⟩ := hxs
    refine ⟨hid, hbelow, ih hxs ?_⟩
    rwa [reverse_cons, append_assoc] at hys

lemma Ordered.below {size : Nat} (h : Ordered q size seen ids) (hid : id ∈ ids)
    (hlt : id < q.size) : q.Below 1 id := by
  induction ids generalizing seen with
  | nil => cases hid
  | cons j ids ih =>
    obtain ⟨-, hbelow, h⟩ := h
    rcases mem_cons.mp hid with rfl | hid
    · exact (hbelow hlt).1
    · exact ih h hid

section

variable (hq : q.Standard text) (h : q.Emits text least depth seen p)

include hq h

lemma ordered_postorderSteps {n : Nat} (hid : id < p.size)
    (hbelow : id < q.size → q.Below 1 id) (hn : p.size ≤ n + id) (before : List Nat) :
    Ordered q p.size before (p.postorderSteps false n id) ∧
      id ∈ p.postorderSteps false n id := by
  have hle := h.size_le
  induction n generalizing id before with
  | zero => omega
  | succ n ih =>
    have hchild : ∀ c : Nat, c ∈ (p.node id).children →
        id < c ∧ c < p.size ∧ (c < q.size → q.Below 1 c) := by
      intro c hc
      rcases Nat.lt_or_ge id q.size with hlt | hge
      · by_cases hlist : id ∈ [2, 7]
        · have := h.lists id hlist c hc
          exact ⟨by omega, this.2, fun hcq => by omega⟩
        · simp only [mem_cons, not_mem_nil, or_false, not_or] at hlist
          rw [h.children id hlt hlist.1 hlist.2] at hc
          have := hq.child_lt id hlt c hc
          exact ⟨this.1, by omega, fun _ => (hbelow hlt).child hc⟩
      · rw [(h.added id hid hge).children] at hc
        cases hc
    -- the nodes below are in order one after the other
    have hlist : ∀ (cs before : List Nat), (∀ c ∈ cs, c ∈ (p.node id).children) →
        Ordered q p.size before (cs.flatMap (p.postorderSteps false n)) ∧
          ∀ c ∈ cs, c ∈ cs.flatMap (p.postorderSteps false n) := by
      intro cs
      induction cs with
      | nil => exact fun _ _ => ⟨trivial, nofun⟩
      | cons c cs ihcs =>
        intro before hcs
        obtain ⟨hlt, hcp, hcb⟩ := hchild c (hcs c (.head _))
        obtain ⟨hfirst, hmem⟩ := ih hcp hcb (by omega) before
        obtain ⟨hrest, hmems⟩ := ihcs ((p.postorderSteps false n c).reverse ++ before)
          fun d hd => hcs d (.tail _ hd)
        refine ⟨hfirst.append hrest, fun d hd => ?_⟩
        rcases mem_cons.mp hd with rfl | hd
        · exact mem_append_left _ hmem
        · exact mem_append_right _ (hmems d hd)
    obtain ⟨hordered, hmems⟩ := hlist (p.node id).children before fun _ hc => hc
    refine ⟨hordered.append ⟨hid, fun hlt => ⟨hbelow hlt, fun c hc => ?_⟩, trivial⟩,
      mem_append_right _ (mem_singleton_self id)⟩
    rw [← h.children_eq hq.toBare hlt hc] at hc
    exact mem_append_left _ (mem_reverse.mpr (hmems c hc))

lemma mem_postorderSteps {n top : Nat} (htop : top < q.size) (hn : p.size ≤ n + top)
    (hbelow : q.Below top id) : id ∈ p.postorderSteps false n top := by
  have hle := h.size_le
  induction n generalizing top with
  | zero => omega
  | succ n ih =>
    rw [Project.postorderSteps, mem_append]
    rcases hbelow.eq_or with rfl | ⟨c, hc, hbelow⟩
    · exact .inr (mem_singleton_self _)
    · have hlt := hq.child_lt top htop c hc
      have hsame := h.children_eq hq.toBare htop hc
      exact .inl (mem_flatMap.mpr
        ⟨c, Project.mem_childrenIn.mpr (hsame ▸ hc), ih hlt.2 (by omega) hbelow⟩)

/-! ### Emitting trees -/

lemma exists_walk_eq (emitter : Emitter) (htop : id < q.size) (hbelow : q.Below 1 id)
    (hne : ∀ j ∈ p.postorder false id, j < q.size → (q.node j).kind ≠ .matrixDivision)
    (htree : 1 ∈ p.postorder false id → ∀ n, EmitsIncludes q text n depth emitter) :
    ∃ p', (p.postorder false id).forM (emitNode emitter) p = .ok () p' ∧
      q.Emits text least depth ((p.postorder false id).reverse ++ seen) p' := by
  have hordered := (ordered_postorderSteps hq h (n := p.size + 1)
    (h.lt htop) (fun _ => hbelow) (by omega) seen).1
  rcases exists_forM_eq hq (h.atLeast .refl) hordered fun hone => htree hone p.size with
    ⟨⟨p', hrun, h'⟩, -⟩ | ⟨-, j, hj, hlt, hdivision⟩
  · exact ⟨p', hrun, h'.atLeast (Nat.le_trans h.least_le h'.least_le)⟩
  · exact absurd hdivision (hne j hj hlt)

omit hq in
lemma eq_or_le_of_below {list : Nat} (hlist : list ∈ [2, 7]) (hbelow : p.Below list id) :
    id = list ∨ q.size ≤ id ∧ id < p.size := by
  induction hbelow with
  | self => exact .inl rfl
  | @child id c _ hc ih =>
    rcases ih with rfl | ⟨hle, hlt⟩
    · exact .inr (h.lists _ hlist c hc)
    · rw [(h.added id hlt hle).children] at hc
      cases hc

lemma exists_walk_list (emitter : Emitter) {list : Nat} (hlist : list ∈ [2, 7]) :
    ∃ p', (p.postorder false list).forM (emitNode emitter) p = .ok () p' ∧
      q.Emits text least depth seen p' := by
  obtain ⟨hlt, hbelow, -⟩ := hq.list hlist
  have honly : ∀ j ∈ p.postorder false list, j < q.size → j = list := by
    intro j hj hjlt
    rcases eq_or_le_of_below h hlist (Project.below_of_mem_postorderSteps hj) with heq | hle
    · exact heq
    · exact absurd hjlt (Nat.not_lt.mpr hle.1)
  have hne : ∀ j ∈ p.postorder false list, j < q.size → (q.node j).kind ≠ .matrixDivision := by
    intro j hj hjlt
    rw [honly j hj hjlt]
    simp at hlist
    rcases hlist with rfl | rfl
    · rw [(hq.frame 2 hlt .includes 1 rfl).1]
      decide
    · rw [(hq.frame 7 hlt .log 1 rfl).1]
      decide
  have hone : 1 ∉ p.postorder false list := by
    intro hmem
    rw [← honly 1 hmem hq.size] at hlist
    exact absurd hlist (by decide)
  obtain ⟨p', hrun, h'⟩ := exists_walk_eq hq h emitter hlt hbelow hne fun hmem => absurd hmem hone
  exact ⟨p', hrun, h'.mono fun j hj => mem_append_right _ hj⟩

lemma exists_emitSteps_includes (hdepth : 0 < depth) (n : Nat) :
    ∃ p', emitSteps (n + 1) true 2 p = .ok () p' ∧ q.Emits text least depth seen p' := by
  let p₁ : Project := { p with depth := p.depth + 1 }
  have h1 : q.Emits text least (depth + 1) seen p₁ := h.setDepth (by rw [h.depth])
  obtain ⟨p2, hrun, h2⟩ := exists_walk_list hq h1 ⟨emitSteps n false, emitSteps n true⟩
    (show 2 ∈ [2, 7] by decide)
  let p3 : Project := { p2 with depth := p2.depth - 1 }
  have h3 : q.Emits text least depth seen p3 := h2.setDepth (by rw [h2.depth]; rfl)
  have hstart : (p.depth == 0) = false := by
    rw [h.depth]
    exact beq_eq_false_iff_ne.mpr (by omega)
  have hend : (p3.depth == 0) = false := by
    rw [h3.depth]
    exact beq_eq_false_iff_ne.mpr (by omega)
  refine ⟨p3, ?_, h3⟩
  show (if (p.depth == 0) = true then _ else _ : Edit Unit) p = _
  rw [hstart, if_neg (by decide), modify_bind]
  refine bind_run rfl ?_
  refine bind_run hrun ?_
  show (if (p3.depth == 0) = true then _ else _ : Edit Unit) p3 = _
  rw [hend]
  rfl

lemma Emits.logOf_eq : logOf 1 p = .ok 7 p := by
  refine Edit.logOf_eq h.toSited Nat.one_pos (h.lt hq.size) ?_
  rw [h.children 1 hq.size (by decide) (by decide), hq.children 1 hq.size (by decide)]
  rfl

end

lemma exists_emitBelow_start (hq : q.Standard text) (h : q.Emits text least 0 seen p)
    (one : NodeId → Edit Unit) : ∃ p₁, q.Emits text least 1 seen p₁ ∧
      emitBelow one 1 p = (do
        (p₁.postorder false 1).forM one
        modify fun project : Project => { project with depth := project.depth - 1 }
        if (← get).depth == 0 then (← nodesBottomUp (← logOf 1)).forM one : Edit Unit) p₁ := by
  let p0 := p.update 7 fun node => { node with children := [] }
  have h0 : q.Emits text least 0 seen p0 := h.clear
  refine ⟨{ p0 with depth := p0.depth + 1 }, h0.setDepth (by rw [h0.depth]), ?_⟩
  show (if (p.depth == 0) = true then _ else _ : Edit Unit) p = _
  rw [h.depth]
  exact bind_run (Emits.logOf_eq hq h) rfl

lemma includes_of_emitSteps (hq : q.Standard text) (n : Nat) :
    1 ∈ ids → ∀ least, EmitsIncludes q text least 1
      ⟨emitSteps (n + 1) false, emitSteps (n + 1) true⟩ :=
  fun _ _ _ _ h => exists_emitSteps_includes hq h Nat.one_pos n

section

variable (hq : q.Standard text) (h : q.Emits text least 0 [] p)

include hq h

lemma exists_emitSteps_eq
    (hne : ∀ id, q.Below 1 id → (q.node id).kind ≠ .matrixDivision) (n : Nat) :
    ∃ p', emitSteps (n + 2) true 1 p = .ok () p' ∧ q.Emits text least 0 [] p' ∧
      ∀ id, q.Below 1 id → id ∉ [1, 2, 7] → (p'.node id).str = (q.outline id).rendered := by
  let emitter : Emitter := ⟨emitSteps (n + 1) false, emitSteps (n + 1) true⟩
  obtain ⟨p₁, h1, hstart⟩ := exists_emitBelow_start hq h (emitNode emitter)
  have hordered := (ordered_postorderSteps hq h1 (n := p₁.size + 1)
    (h1.lt hq.size) (fun _ => .self) (by omega) []).1
  obtain ⟨p2, hrun2, h2⟩ := exists_walk_eq hq h1 emitter hq.size .self
    (fun j hj hlt => hne j (hordered.below hj hlt)) (includes_of_emitSteps hq n)
  let p3 : Project := { p2 with depth := p2.depth - 1 }
  have h3 := h2.setDepth (show p2.depth - 1 = 0 by rw [h2.depth])
  obtain ⟨p4, hrun4, h4⟩ := exists_walk_list hq h3 emitter (show 7 ∈ [2, 7] by decide)
  refine ⟨p4, ?_, h4.mono nofun, fun id hbelow hid => ?_⟩
  · refine hstart.trans (bind_run hrun2 ?_)
    show (if (p3.depth == 0) = true then _ else _ : Edit Unit) p3 = _
    rw [if_pos (by rw [h3.depth]; rfl)]
    exact bind_run (Emits.logOf_eq hq h3) hrun4
  · have hmem : id ∈ p₁.postorder false 1 :=
      mem_postorderSteps hq h1 hq.size (Nat.le_add_right p₁.size 2) hbelow
    exact h4.told id (mem_append_left _ (mem_reverse.mpr hmem))
      (hq.lt_of_below hq.size hbelow).2 hid

lemma exists_emitSteps_error
    (hdivision : ∃ id, q.Below 1 id ∧ (q.node id).kind = .matrixDivision) (n : Nat) :
    ∃ failure p', emitSteps (n + 2) true 1 p = .error failure p' := by
  let emitter : Emitter := ⟨emitSteps (n + 1) false, emitSteps (n + 1) true⟩
  obtain ⟨p₁, h1, hstart⟩ := exists_emitBelow_start hq h (emitNode emitter)
  have hordered := (ordered_postorderSteps hq h1 (n := p₁.size + 1)
    (h1.lt hq.size) (fun _ => .self) (by omega) []).1
  obtain ⟨id, hbelow, hkind⟩ := hdivision
  have hmem : id ∈ p₁.postorder false 1 :=
    mem_postorderSteps hq h1 hq.size (Nat.le_add_right p₁.size 2) hbelow
  rcases exists_forM_eq hq (h1.atLeast .refl) hordered
    fun hone => includes_of_emitSteps hq n hone p₁.size with
    ⟨-, hnone⟩ | ⟨⟨failure, p', hrun⟩, -⟩
  · exact absurd hkind (hnone id hmem (hq.lt_of_below hq.size hbelow).2)
  · exact ⟨failure, p', hstart.trans (bind_error hrun)⟩

omit hq h in
lemma emit_eq_emitSteps (hq : q.Bare text) (h : q.Emits text least 0 [] p) :
    emit 1 p = emitSteps (p.size + 21) true 1 p := by
  have hconfigured : ensureConfigured p = .ok () p := by
    show (if (!p.configured) = true then _ else _ : Edit Unit) p = _
    rw [h.configured]
    rfl
  refine bind_run hconfigured ?_
  show (if ((p.node 1).kind == .project) = true then _ else _ : Edit Unit) p = _
  rw [h.kind hq.size, hq.kind_program]
  rfl

/-- A bare program without quotients of matrices is emitted, each of its nodes by its outline. -/
lemma exists_emit_eq (hne : ∀ id, q.Below 1 id → (q.node id).kind ≠ .matrixDivision) :
    ∃ p', emit 1 p = .ok () p' ∧ q.Emits text least 0 [] p' ∧
      ∀ id, q.Below 1 id → id ∉ [1, 2, 7] → (p'.node id).str = (q.outline id).rendered := by
  rw [emit_eq_emitSteps hq.toBare h]
  exact exists_emitSteps_eq hq h hne (p.size + 19)

/-- A bare program with a quotient of matrices cannot be emitted. -/
lemma exists_emit_error (hdivision : ∃ id, q.Below 1 id ∧ (q.node id).kind = .matrixDivision) :
    ∃ failure p', emit 1 p = .error failure p' := by
  rw [emit_eq_emitSteps hq.toBare h]
  exact exists_emitSteps_error hq h hdivision (p.size + 19)

end

lemma emits_self (hq : q.Standard text) (hconfigured : q.configured = true)
    (hdepth : q.depth = 0) : q.Emits text q.size 0 [] q := by
  refine ⟨hq.toSited, .refl, .refl, rfl, hconfigured, hdepth, fun _ _ => rfl,
    fun _ _ _ _ => rfl, fun id hid hle => absurd hid (Nat.not_lt.mpr hle), ?_, nofun⟩
  intro id hid c hc
  rw [(hq.list hid).2.2] at hc
  cases hc

end ArmaGen.Edit
