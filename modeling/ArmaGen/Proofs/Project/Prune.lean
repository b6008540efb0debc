import ArmaGen.Project.Prune
import ArmaGen.Proofs.Project.Install

/-!
# What is removed from a program

Commands that clear the workspace are removed together with the node above their name, wherever the
name stands, and the line that makes the names of the matrix library known is lost unless it is the
last one. Nothing else changes (`Edit.children_of_prune`).
-/

namespace ArmaGen

open List

/-- A node without the nodes below it. -/
def Node.alone (node : Node) : Node :=
  { node with children := [] }

namespace Project

variable {p q r : Project} {id j : Nat}

lemma alone_setChildren (l : List Nat) :
    ((p.update id fun node => { node with children := l }).node j).alone = (p.node j).alone :=
  apply_node_update fun _ => rfl

lemma children_setChildren {l : List Nat} (h : id < p.size) :
    ((p.update id fun node => { node with children := l }).node j).children =
      if j = id then l else (p.node j).children := by
  split
  · next hj => rw [hj, node_update_self h]
  · next hj => rw [node_update_of_ne hj]

lemma parent_eq (h : (q.node j).alone = (p.node j).alone) :
    (q.node j).parent = (p.node j).parent := by
  have := congrArg Node.parent h
  exact this

lemma name_eq (h : (q.node j).alone = (p.node j).alone) : (q.node j).name = (p.node j).name := by
  have := congrArg Node.name h
  exact this

/-- Whether one of some nodes has the name of a command, and stands below `c`, which is below
`j`. -/
def clears (p : Project) (ids : List Nat) (j c : Nat) : Bool :=
  ids.any fun id => ["clear", "close", "clc"].contains (p.node id).name &&
    (p.node id).parent == c && (p.node c).parent == j

/-- Lines that make the names of the matrix library known may be missing, and nothing else. -/
structure Unnames (p q : Project) : Prop where
  node : ∀ j, (q.node j).alone = (p.node j).alone
  below : ∀ j, (q.node j).children <+ (p.node j).children
  lost : ∀ j, ∀ c ∈ (p.node j).children, c ∉ (q.node j).children →
    (p.node c).name = Edit.armadilloNames

lemma Unnames.refl (p : Project) : p.Unnames p :=
  ⟨fun _ => rfl, fun _ => .refl _, fun _ _ h h' => absurd h h'⟩

lemma Unnames.trans (h : p.Unnames q) (h' : q.Unnames r) : p.Unnames r where
  node j := (h'.node j).trans (h.node j)
  below j := (h'.below j).trans (h.below j)
  lost j c hc hr := by
    by_cases hq : c ∈ (q.node j).children
    · rw [← name_eq (h.node c)]
      exact h'.lost j c hq hr
    · exact h.lost j c hc hq

end Project

namespace Edit

open Project

variable {p q : Project} {id : Nat} {ids : List Nat}

lemma of_detach (h : detach id p = .ok () q) (hnodup : ∀ j, (p.node j).children.Nodup) (j : Nat) :
    (q.node j).alone = (p.node j).alone ∧ (q.node j).children =
      (p.node j).children.filter fun c => !(id == c && (p.node c).parent == j) := by
  have herase := erase_eq_eraseIdx (p.node (p.node id).parent).children id
  have hparent : parent id p = .ok (p.node id).parent p := rfl
  have hbelow : children (p.node id).parent p = .ok (p.node (p.node id).parent).children p := rfl
  rw [detach, bind_ok hparent, bind_ok hbelow] at h
  cases hindex : (p.node (p.node id).parent).children.idxOf? id with
  | none =>
    rw [hindex] at h
    cases h
  | some index =>
    rw [hindex] at h herase
    cases h
    have hmem := isSome_idxOf?.1 (by rw [hindex]; rfl)
    refine ⟨alone_setChildren _, (children_setChildren (lt_size_of_mem hmem)).trans ?_⟩
    split
    · next hj =>
      subst hj
      refine herase.symm.trans ((hnodup _).erase_eq_filter _ ▸ filter_congr fun c _ => ?_)
      by_cases hc : id = c
      · simp [hc]
      · simp [beq_false_of_ne hc, bne_iff_ne.2 (Ne.symm hc)]
    · next hj =>
      refine (filter_eq_self.2 fun c _ => ?_).symm
      by_cases hc : id = c
      · simp [← hc, Ne.symm hj]
      · simp [hc]

lemma of_removeCommands (h : removeCommands ids p = .ok () q)
    (hnodup : ∀ j, (p.node j).children.Nodup) (j : Nat) :
    (q.node j).alone = (p.node j).alone ∧
      (q.node j).children = (p.node j).children.filter fun c => !p.clears ids j c := by
  induction ids generalizing p with
  | nil =>
    cases h
    exact ⟨rfl, (filter_eq_self.2 fun _ _ => rfl).symm⟩
  | cons id ids ih =>
    have hrun : removeCommands (id :: ids) p =
        (if ["clear", "close", "clc"].contains (p.node id).name
          then detach (p.node id).parent >>= fun _ => removeCommands ids else removeCommands ids)
            p := by
      show (if ["clear", "close", "clc"].contains (p.node id).name then _ else _ : Edit Unit) p = _
      split <;> rfl
    rw [hrun] at h
    cases hname : ["clear", "close", "clc"].contains (p.node id).name with
    | false =>
      rw [hname] at h
      obtain ⟨halone, hchildren⟩ := ih h hnodup
      refine ⟨halone, hchildren.trans (filter_congr fun c _ => ?_)⟩
      rw [clears, clears, any_cons, hname]
      rfl
    | true =>
      rw [hname] at h
      obtain ⟨⟨⟩, p₁, hdetach, hrest⟩ := exists_of_bind_ok h
      have h1 := of_detach hdetach hnodup
      obtain ⟨halone, hchildren⟩ := ih hrest fun j => (h1 j).2 ▸ (hnodup j).filter _
      refine ⟨halone.trans (h1 j).1, ?_⟩
      rw [hchildren, (h1 j).2, filter_filter]
      refine filter_congr fun c _ => ?_
      rw [clears, clears, any_cons, hname]
      simp only [fun i => name_eq (h1 i).1, fun i => parent_eq (h1 i).1]
      simp [Bool.and_comm]

lemma unnames_removeArmadilloNames (h : removeArmadilloNames id p = .ok () q) : p.Unnames q := by
  rw [removeArmadilloNames, names_bind] at h
  cases hindex : armadilloPosition? (p.namesBelow id) with
  | none =>
    rw [hindex] at h
    cases h
    exact .refl p
  | some index =>
    rw [hindex] at h
    obtain ⟨_, _, hread, h⟩ := exists_of_bind_ok h
    cases hread
    obtain ⟨⟨⟩, _, hset, h⟩ := exists_of_bind_ok h
    cases hset
    obtain rfl : p.update id
        (fun node => { node with children := (p.node id).children.eraseIdx index }) = q := by
      split at h
      · cases h
      · cases h
        rfl
    obtain ⟨hlt, hname, -⟩ := idxOf?_eq_some_iff.1 hindex
    rw [namesBelow] at hlt
    simp only [namesBelow, getElem_dropLast, getElem_map] at hname
    rw [length_dropLast, length_map] at hlt
    have hlast := getElem_mem (l := (p.node id).children) (n := index) (by omega)
    have hchildren : ∀ j, _ := fun j => children_setChildren (j := j)
      (l := (p.node id).children.eraseIdx index) (lt_size_of_mem hlast)
    refine ⟨fun j => alone_setChildren _, fun j => ?_, fun j c hc hlost => ?_⟩
    · rw [hchildren]
      split
      · next hj => exact hj ▸ eraseIdx_sublist ..
      · exact .refl _
    · rw [hchildren] at hlost
      split at hlost
      · next hj =>
        subst hj
        obtain ⟨k, hk⟩ := getElem?_of_mem hc
        by_cases hindex : k = index
        · rw [hindex, getElem?_eq_getElem (by omega), Option.some.injEq] at hk
          rw [← hk, hname]
        · exact absurd (mem_eraseIdx_iff_getElem?.2 ⟨k, hindex, hk⟩) hlost
      · exact absurd hc hlost

lemma eq_of_child {c : Nat} {index : Int} (h : child id index p = .ok c q) : q = p := by
  rw [child, node_bind] at h
  split at h
  · cases h
  · extract_lets k at h
    generalize (if 0 ≤ k then (p.node id).children[k.toNat]? else none) = found? at h
    cases found? with
    | none => cases h
    | some found =>
      cases h
      rfl

lemma unnames_forM
    (h : (ids.forM fun program => do removeArmadilloNames (← child program 0)) p = .ok () q) :
    p.Unnames q := by
  induction ids generalizing p with
  | nil =>
    cases h
    exact .refl _
  | cons program ids ih =>
    obtain ⟨⟨⟩, p₁, hfirst, hrest⟩ := exists_of_bind_ok h
    obtain ⟨c, _, hchild, hremove⟩ := exists_of_bind_ok hfirst
    obtain rfl := eq_of_child hchild
    exact (unnames_removeArmadilloNames hremove).trans (ih hrest)

/-- If removing what an emitted program does not need succeeds on a project that is configured, then
what stands above the names of commands is taken out, lines that make the names of the matrix
library known may be lost, and nothing else changes. -/
theorem children_of_prune (hp : p.configured = true) (hnodup : ∀ j, (p.node j).children.Nodup)
    (h : prune false p = .ok () q) (j : Nat) :
    let kept := (p.node j).children.filter fun c => !p.clears (p.preorder false root) j c
    (q.node j).alone = (p.node j).alone ∧ (q.node j).children <+ kept ∧
      ∀ c ∈ kept, c ∉ (q.node j).children → (p.node c).name = armadilloNames := by
  have hensure : ensureConfigured p = .ok () p := by
    show (if !p.configured then _ else _ : Edit Unit) p = _
    rw [hp]
    rfl
  rw [prune, bind_ok hensure] at h
  obtain ⟨_, _, hread, h⟩ := exists_of_bind_ok h
  cases hread
  obtain ⟨⟨⟩, p₁, hremove, h⟩ := exists_of_bind_ok h
  obtain ⟨programs, _, hread, h⟩ := exists_of_bind_ok h
  cases hread
  obtain ⟨⟨⟩, p₂, hlines, h⟩ := exists_of_bind_ok h
  cases h
  have hcommands := of_removeCommands hremove hnodup
  have hunnames := unnames_forM hlines
  refine ⟨(hunnames.node j).trans (hcommands j).1, ?_⟩
  rw [← show (p₁.node j).children = _ from (hcommands j).2]
  refine ⟨hunnames.below j, fun c hc hlost => ?_⟩
  rw [← name_eq (hcommands c).1]
  exact hunnames.lost j c hc hlost

/-- A program with two lines to include and a script that clears the workspace. -/
def sampleClear : Project where
  nodes := #[{ kind := .project, children := [1] }, { kind := .program, children := [2, 5] },
    { kind := .includes, parent := 1, children := [3, 4] },
    { kind := .include, name := armadilloNames, parent := 2 },
    { kind := .include, name := "#include <armadillo>", parent := 2 },
    { kind := .block, parent := 1, children := [6, 8] },
    { kind := .statement, parent := 5, children := [7] },
    { kind := .var, name := "clear", parent := 6 },
    { kind := .statement, parent := 5 }]
  configured := true

theorem children_of_prune_sample : ∃ q, prune false sampleClear = .ok () q ∧
    (q.node 5).children <+ [8] := by
  have hruns : (prune false).passes sampleClear (fun _ _ => true) = true := by decide +kernel
  obtain ⟨⟨⟩, q, hrun, -⟩ := exists_of_passes hruns
  refine ⟨q, hrun, (children_of_prune rfl (fun j => ?_) hrun 5).2.1⟩
  rcases Nat.lt_or_ge j 9 with hlt | hge
  · revert j
    decide
  · rw [node_of_size_le hge]
    exact .nil

end Edit

end ArmaGen
