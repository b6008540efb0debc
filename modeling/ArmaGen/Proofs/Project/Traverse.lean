import ArmaGen.Proofs.Project.Store
import Mathlib.Data.List.Flatten
import Mathlib.Data.List.Nodup
import Mathlib.Data.List.Perm.Basic

/-!
# The orders of a tree

A tree is gone over by level or in depth, with children forwards or backwards, and from the top or
from the bottom. Each of these orders lists every node once and is another one of them backwards
(`flatten_coherent`). The list that grows by the children of its nodes goes level by level
(`levels_eq`), which gives the same nodes as going in depth (`perm_byDepth`), and going up is going
down backwards.
-/

namespace ArmaGen.Project

open List

/-- The nodes below a node form a tree: each of them is a child in one place only. -/
structure IsTree (p : Project) (top : Nat) : Prop where
  once : ∀ id, p.Below top id → (p.node id).children.Nodup
  apart : ∀ a b c, p.Below top a → p.Below top b → c ∈ (p.node a).children →
    c ∈ (p.node b).children → a = b
  root : ∀ id, p.Below top id → top ∉ (p.node id).children

/-- A node stands some levels below another one. -/
inductive Deep (p : Project) (top : Nat) : Nat → Nat → Prop where
  | root : Deep p top 0 top
  | child {i id c : Nat} (h : Deep p top i id) (hc : c ∈ (p.node id).children) :
      Deep p top (i + 1) c

/-- The nodes below a node are on fewer than some number of levels. -/
def Low (p : Project) : Nat → Nat → Prop
  | 0, _ => False
  | n + 1, id => ∀ c ∈ (p.node id).children, Low p n c

variable {p : Project} {top id a b c d i j n : Nat} {backwards : Bool}

lemma below_of_deep (h : p.Deep top i id) : p.Below top id := by
  induction h with
  | root => exact .self
  | child _ hc ih => exact ih.child hc

/-- Nodes that know the node above them and come after it form trees. -/
lemma isTree_of_parent (h : ∀ id < p.size, (p.node id).children.Nodup ∧
      ∀ c ∈ (p.node id).children, id < c ∧ (p.node c).parent = id) (top : Nat) :
    p.IsTree top := by
  have hparent : ∀ id, ∀ c ∈ (p.node id).children, id < c ∧ (p.node c).parent = id :=
    fun id c hc => (h id (lt_size_of_mem hc)).2 c hc
  have hle : ∀ id, p.Below top id → top ≤ id := by
    intro id hid
    induction hid with
    | self => exact .refl
    | @child id c _ hc ih => exact Nat.le_trans ih (Nat.le_of_lt (hparent id c hc).1)
  refine ⟨fun id _ => ?_, fun a b c _ _ ha hb => ?_, fun id hid htop => ?_⟩
  · rcases Nat.lt_or_ge id p.size with hlt | hge
    · exact (h id hlt).1
    · rw [node_of_size_le hge]
      exact nodup_nil
  · exact (hparent a c ha).2.symm.trans (hparent b c hb).2
  · exact Nat.not_lt.2 (hle id hid) (hparent id top htop).1

/-! ### Trees -/

namespace IsTree

variable (h : p.IsTree top)

include h

/-- What stands below a node and is not the node itself has the node above it below that node. -/
lemma below_above (ha : p.Below top a) (hid : p.Below top id) (hc : c ∈ (p.node a).children)
    (hbelow : p.Below id c) (hne : c ≠ id) : p.Below id a := by
  cases hbelow with
  | self => exact absurd rfl hne
  | child hb hc' => exact h.apart _ a c (hid.trans hb) ha hc' hc ▸ hb

lemma not_below (hid : p.Below top id) (hc : c ∈ (p.node id).children) : ¬ p.Below c id := by
  induction hid generalizing c with
  | self =>
    intro hbelow
    cases hbelow with
    | self => exact h.root _ .self hc
    | child hj htop => exact h.root _ ((Below.self.child hc).trans hj) htop
  | @child above id habove hid ih =>
    intro hbelow
    refine ih hid ?_
    cases hbelow with
    | self => exact h.apart id above id (habove.child hid) habove hc hid ▸ .self
    | child hj hc' =>
      have hbelow := (Below.self.child hc).trans hj
      exact h.apart _ above id ((habove.child hid).trans hbelow) habove hc' hid ▸ hbelow

lemma eq_of_below (hid : p.Below top id) (hc : c ∈ (p.node id).children)
    (hd : d ∈ (p.node id).children) (hca : p.Below c a) (hda : p.Below d a) : c = d := by
  induction hca with
  | self =>
    by_contra hne
    exact h.not_below hid hd (h.below_above hid (hid.child hd) hc hda hne)
  | @child above a hca ha ih =>
    have habove := (hid.child hc).trans hca
    by_cases hne : a = d
    · subst hne
      exact absurd (h.apart above id a habove hid ha hd ▸ hca) (h.not_below hid hc)
    · exact ih (h.below_above habove (hid.child hd) ha hda hne)

lemma deep_unique (hi : p.Deep top i id) (hj : p.Deep top j id) : i = j := by
  induction hi generalizing j with
  | root =>
    cases hj with
    | root => rfl
    | child hj htop => exact absurd htop (h.root _ (below_of_deep hj))
  | child hi hc ih =>
    cases hj with
    | root => exact absurd hc (h.root _ (below_of_deep hi))
    | child hj hc' =>
      obtain rfl := h.apart _ _ _ (below_of_deep hi) (below_of_deep hj) hc hc'
      rw [ih hj]

/-- The nodes on the way to a node are different ones with children, so that there are no more of
them than nodes. -/
lemma low (path : List Nat) (hpath : path.Nodup)
    (hmem : ∀ a ∈ path, ∃ c ∈ (p.node a).children, p.Below c id) (hid : p.Below top id)
    (hn : p.size < n + path.length) : p.Low n id := by
  induction n generalizing path id with
  | zero =>
    have hsub : path ⊆ range p.size := by
      intro a ha
      obtain ⟨c, hc, -⟩ := hmem a ha
      exact mem_range.2 (lt_size_of_mem hc)
    have hle := (subperm_of_subset hpath hsub).length_le
    rw [length_range] at hle
    omega
  | succ n ih =>
    intro c hc
    have hnew : id ∉ path := by
      intro hmem'
      obtain ⟨d, hd, hbelow⟩ := hmem id hmem'
      exact h.not_below hid hd hbelow
    refine ih (id :: path) (nodup_cons.2 ⟨hnew, hpath⟩) (fun a ha => ?_) (hid.child hc) ?_
    · rcases mem_cons.1 ha with rfl | ha
      · exact ⟨c, hc, .self⟩
      · obtain ⟨d, hd, hbelow⟩ := hmem a ha
        exact ⟨d, hd, hbelow.child hc⟩
    · rw [length_cons]
      omega

end IsTree

/-! ### From the top, in depth -/

lemma mem_preorderSteps (backwards : Bool) (hlow : p.Low n top) (hid : p.Below top id) :
    id ∈ p.preorderSteps backwards n top := by
  induction n generalizing top with
  | zero => exact hlow.elim
  | succ n ih =>
    rcases hid.eq_or with rfl | ⟨c, hc, hbelow⟩
    · exact .head _
    · exact .tail _ (mem_flatMap.2 ⟨c, mem_childrenIn.2 hc, ih (hlow c hc) hbelow⟩)

/-- Within a tree, what stands below a node is gone over on its own. -/
lemma Low.exists_sublist (backwards : Bool) (hlow : p.Low n top) (hid : p.Below top id) :
    ∃ m, p.Low (m + 1) id ∧
      p.preorderSteps backwards (m + 1) id <+ p.preorderSteps backwards n top := by
  induction n generalizing top with
  | zero => exact hlow.elim
  | succ n ih =>
    rcases hid.eq_or with rfl | ⟨c, hc, hbelow⟩
    · exact ⟨n, hlow, .refl _⟩
    · obtain ⟨m, hm, hsub⟩ := ih (hlow c hc) hbelow
      refine ⟨m, hm, hsub.trans (.cons _ ?_)⟩
      have hmem : c ∈ p.childrenIn backwards top := mem_childrenIn.2 hc
      have hpart := (singleton_sublist.2 hmem).flatMap (p.preorderSteps backwards n)
      rwa [flatMap_singleton] at hpart

lemma IsTree.nodup_preorderSteps (h : p.IsTree top) (hid : p.Below top id) :
    (p.preorderSteps backwards n id).Nodup := by
  induction n generalizing id with
  | zero => exact nodup_nil
  | succ n ih =>
    have hchildren : (p.childrenIn backwards id).Nodup := by
      unfold childrenIn
      split
      · exact nodup_reverse.2 (h.once id hid)
      · exact h.once id hid
    refine nodup_cons.2 ⟨fun hmem => ?_, nodup_flatMap.2 ⟨fun c hc => ih (hid.child ?_), ?_⟩⟩
    · obtain ⟨c, hc, hmem⟩ := mem_flatMap.1 hmem
      exact h.not_below hid (mem_childrenIn.1 hc) (below_of_mem_preorderSteps hmem)
    · exact mem_childrenIn.1 hc
    · refine hchildren.imp_of_mem fun {c d} hc hd hne a hca hda => hne ?_
      exact h.eq_of_below hid (mem_childrenIn.1 hc) (mem_childrenIn.1 hd)
        (below_of_mem_preorderSteps hca) (below_of_mem_preorderSteps hda)

lemma sublist_preorderSteps (hlow : p.Low n top) (ha : p.Below top a)
    (hc : c ∈ (p.node a).children) (hb : p.Below c b) :
    [a, b] <+ p.preorderSteps backwards n top := by
  obtain ⟨m, hm, hsub⟩ := hlow.exists_sublist backwards ha
  exact .trans (.cons_cons a (singleton_sublist.2 (mem_flatMap.2
    ⟨c, mem_childrenIn.2 hc, mem_preorderSteps backwards (hm c hc) hb⟩))) hsub

lemma sublist_preorderSteps_of_siblings (hlow : p.Low n top) (hid : p.Below top id)
    (hcd : [c, d] <+ p.childrenIn backwards id) (ha : p.Below c a) (hb : p.Below d b) :
    [a, b] <+ p.preorderSteps backwards n top := by
  obtain ⟨m, hm, hsub⟩ := hlow.exists_sublist backwards hid
  have hmem := fun e (he : e ∈ [c, d]) => mem_childrenIn.1 (hcd.subset he)
  have hparts := hcd.flatMap (p.preorderSteps backwards m)
  rw [flatMap_cons, flatMap_singleton] at hparts
  refine .trans (.trans ?_ hparts) ((sublist_cons_self ..).trans hsub)
  have hfirst := mem_preorderSteps backwards (hm c (hmem c (.head _))) ha
  have hsecond := mem_preorderSteps backwards (hm d (hmem d (.tail _ (.head _)))) hb
  exact (singleton_sublist.2 hfirst).append (singleton_sublist.2 hsecond)

/-! ### By level -/

/-- The nodes of a level, and then those of the levels below it. -/
def byDepth (p : Project) (backwards : Bool) : Nat → List Nat → List Nat
  | 0, _ => []
  | n + 1, level => level ++ byDepth p backwards n (level.flatMap (p.childrenIn backwards))

/-- A level that has been gone over has put its children behind what was waiting. -/
lemma levelsSteps_append (level rest : List Nat) :
    p.levelsSteps backwards (level.length + n) (level ++ rest) =
      level ++ p.levelsSteps backwards n (rest ++ level.flatMap (p.childrenIn backwards)) := by
  induction level generalizing rest with
  | nil => simp
  | cons id level ih =>
    rw [length_cons, Nat.succ_add, cons_append, levelsSteps, append_assoc, ih, append_assoc]
    rfl

/-- The list that grows holds one level after the other. -/
lemma levelsSteps_eq (level : List Nat) :
    p.levelsSteps backwards (p.byDepth backwards n level).length level =
      p.byDepth backwards n level := by
  induction n generalizing level with
  | zero => rfl
  | succ n ih =>
    let next := level.flatMap (p.childrenIn backwards)
    have hlevel : p.levelsSteps backwards (_ + (p.byDepth backwards n next).length) _ = _ :=
      levelsSteps_append level []
    rw [append_nil, nil_append, ih] at hlevel
    rw [byDepth, length_append, hlevel]

/-- By level a tree has the nodes it has in depth. -/
lemma perm_byDepth (level : List Nat) :
    p.byDepth backwards n level ~ level.flatMap (p.preorderSteps backwards n) := by
  induction n generalizing level with
  | zero => simp [byDepth, preorderSteps]
  | succ n ih =>
    rw [byDepth]
    refine (ih _).append_left _ |>.trans ?_
    rw [flatMap_assoc]
    have hparts := flatMap_append_perm level (fun id => [id]) fun id =>
      (p.childrenIn backwards id).flatMap (p.preorderSteps backwards n)
    rwa [flatMap_singleton'] at hparts

/-- Along the levels nodes do not get less deep. -/
lemma IsTree.pairwise_byDepth (h : p.IsTree top) {level : List Nat}
    (hlevel : ∀ id ∈ level, p.Deep top i id) :
    (p.byDepth backwards n level).Pairwise
        (fun a b => ∀ i j, p.Deep top i a → p.Deep top j b → i ≤ j) ∧
      ∀ id ∈ p.byDepth backwards n level, ∀ j, p.Deep top j id → i ≤ j := by
  induction n generalizing level i with
  | zero => exact ⟨.nil, nofun⟩
  | succ n ih =>
    have hnext : ∀ c ∈ level.flatMap (p.childrenIn backwards), p.Deep top (i + 1) c := by
      intro c hc
      obtain ⟨a, ha, hc⟩ := mem_flatMap.1 hc
      exact (hlevel a ha).child (mem_childrenIn.1 hc)
    obtain ⟨hrest, hdeep⟩ := ih hnext
    have hhere : ∀ a ∈ level, ∀ j, p.Deep top j a → j = i :=
      fun a ha j hj => h.deep_unique hj (hlevel a ha)
    rw [byDepth]
    refine ⟨pairwise_append.2 ⟨pairwise_of_forall_mem_list ?_, hrest, ?_⟩, ?_⟩
    · intro a ha b hb i' j hi hj
      exact Nat.le_of_eq ((hhere a ha i' hi).trans (hhere b hb j hj).symm)
    · intro a ha b hb i' j hi hj
      rw [hhere a ha i' hi]
      exact Nat.le_of_succ_le (hdeep b hb j hj)
    · intro a ha j hj
      rcases mem_append.1 ha with ha | ha
      · exact Nat.le_of_eq (hhere a ha j hj).symm
      · exact Nat.le_of_succ_le (hdeep a ha j hj)

/-! ### Every order -/

lemma flatten_eq_reverse (byLevel backwards fromBottom : Bool) :
    p.flatten byLevel backwards fromBottom top =
      (p.flatten byLevel (!backwards) (!fromBottom) top).reverse := by
  cases byLevel <;> cases fromBottom <;>
    simp [flatten, preorder, postorder, preorderSteps_eq_reverse]

lemma levels_eq : p.levels backwards top = p.byDepth backwards (p.size + 1) [top] := by
  have hperm : p.byDepth backwards (p.size + 1) [top] ~ _ := perm_byDepth [top]
  rw [flatMap_singleton] at hperm
  unfold levels
  rw [show (p.preorder backwards top).length = _ from hperm.length_eq.symm]
  exact levelsSteps_eq [top]

lemma exists_flatten_perm (byLevel backwards fromBottom : Bool) :
    ∃ b, p.flatten byLevel backwards fromBottom top ~ p.preorder b top := by
  have hlevels : ∀ b, p.levels b top ~ p.preorder b top := by
    intro b
    rw [levels_eq, ← flatMap_singleton (p.preorder b) top]
    exact perm_byDepth [top]
  cases byLevel <;> cases fromBottom
  · exact ⟨backwards, .refl _⟩
  · rw [flatten_eq_reverse]
    exact ⟨!backwards, reverse_perm _⟩
  · exact ⟨backwards, hlevels _⟩
  · exact ⟨!backwards, (reverse_perm _).trans (hlevels _)⟩

/-- **The orders of a tree agree with each other.** Each lists every node once, and is the order
with both children and direction turned around, backwards. In depth a node comes before, or after,
all that is below it, and what is below one child is not mixed with what is below another; by level
nodes do not get less deep, or deeper. -/
theorem flatten_coherent (h : p.IsTree top) (byLevel backwards fromBottom : Bool) :
    let order := p.flatten byLevel backwards fromBottom top
    (order.Nodup ∧ ∀ id, id ∈ order ↔ p.Below top id) ∧
    order = (p.flatten byLevel (!backwards) (!fromBottom) top).reverse ∧
    (byLevel = false →
      (∀ a b c, p.Below top a → c ∈ (p.node a).children → p.Below c b →
        if fromBottom then [b, a] <+ order else [a, b] <+ order) ∧
      ∀ id c d a b, p.Below top id → [c, d] <+ p.childrenIn backwards id → p.Below c a →
        p.Below d b → [a, b] <+ order) ∧
    (byLevel = true → order.Pairwise fun a b => ∀ i j, p.Deep top i a → p.Deep top j b →
        if fromBottom then j ≤ i else i ≤ j) := by
  have hlow : p.Low (p.size + 1) top := h.low [] nodup_nil nofun .self (by simp)
  refine ⟨?_, flatten_eq_reverse .., ?_, ?_⟩
  · obtain ⟨b, hperm⟩ := p.exists_flatten_perm byLevel backwards fromBottom
    refine ⟨hperm.nodup_iff.2 (h.nodup_preorderSteps .self), fun id => ?_⟩
    rw [hperm.mem_iff]
    exact ⟨below_of_mem_preorderSteps, mem_preorderSteps b hlow⟩
  -- from the bottom both orders are those from the top, read backwards
  · rintro rfl
    cases fromBottom with
    | false =>
      exact ⟨fun a b c ha hc hb => sublist_preorderSteps hlow ha hc hb,
        fun id c d a b hid hcd ha hb => sublist_preorderSteps_of_siblings hlow hid hcd ha hb⟩
    | true =>
      rw [flatten_eq_reverse]
      refine ⟨fun a b c ha hc hb => ?_, fun id c d a b hid hcd ha hb => ?_⟩
      · exact (sublist_preorderSteps hlow ha hc hb).reverse
      · refine (sublist_preorderSteps_of_siblings hlow hid ?_ hb ha).reverse
        rw [childrenIn_not]
        exact hcd.reverse
  · rintro rfl
    have hlevels : ∀ b, (p.levels b top).Pairwise fun a b => ∀ i j, p.Deep top i a →
        p.Deep top j b → i ≤ j := by
      intro b
      rw [levels_eq]
      exact (h.pairwise_byDepth (forall_mem_singleton.2 .root)).1
    cases fromBottom with
    | false => exact hlevels backwards
    | true => exact pairwise_reverse.2 ((hlevels _).imp fun hle i j hi hj => hle j i hj hi)

/-- `A` over `B` and `C`, with `D` and `E` under `B` and `F` and `G` under `C`. -/
def sampleTree : Project where
  nodes := #[{ kind := .project, name := "A", children := [1, 2] },
    { kind := .program, name := "B", children := [3, 4] },
    { kind := .program, name := "C", children := [5, 6] },
    { kind := .funcs, name := "D", parent := 1 }, { kind := .includes, name := "E", parent := 1 },
    { kind := .funcs, name := "F", parent := 2 }, { kind := .includes, name := "G", parent := 2 }]

theorem flatten_coherent_sample : sampleTree.IsTree 0 ∧
    sampleTree.flatten true false true 0 = [3, 4, 5, 6, 1, 2, 0] ∧
    [3, 4, 5, 6, 1, 2, 0].Pairwise fun a b => ∀ i j, sampleTree.Deep 0 i a →
      sampleTree.Deep 0 j b → j ≤ i := by
  have htree : sampleTree.IsTree 0 := isTree_of_parent (by decide) 0
  exact ⟨htree, by decide, (flatten_coherent htree true false true).2.2.2 rfl⟩

end ArmaGen.Project
