import ArmaGen.Proofs.Project.Store

/-!
# Building syntax into a project
-/

namespace ArmaGen

open List

open Project Syntax

/-! ### Nodes around -/

/-- The kinds at which the search for the function around a node ends. -/
def Kind.boundsFunction (kind : Kind) : Bool :=
  kind == .func || kind == .main || kind == .program

lemma Kind.boundsFunction_eq_false {kind : Kind} (h : kind.isInner = true) :
    kind.boundsFunction = false := by
  cases kind <;> first | rfl | cases h

namespace Project

variable {p p' : Project} {id top j f d r q : Nat} {g : Node → Node} {node : Node}
  {A : Nat → Prop} {wanted : Kind → Bool}

lemma enclosing_succ {n : Nat} : Edit.enclosing wanted (n + 1) id p =
      if wanted (p.node id).kind then .ok id p else Edit.enclosing wanted n (p.node id).parent
        p := by
  show (if wanted (p.node id).kind then pure id
    else Edit.parent id >>= Edit.enclosing wanted n) p = _
  split <;> rfl

/-- The first node of some kinds at or above a node is `top`. -/
inductive Encloses (p : Project) (wanted : Kind → Bool) (top : Nat) : Nat → Prop where
  | self (h : wanted (p.node top).kind = true) (hlt : top < p.size) : Encloses p wanted top top
  | above {id : Nat} (h : wanted (p.node id).kind = false) (hlt : (p.node id).parent < id)
      (hid : id < p.size) (rest : Encloses p wanted top (p.node id).parent) :
      Encloses p wanted top id

section

variable (h : p.Encloses wanted top id)

include h

lemma Encloses.lt_size : id < p.size := by
  cases h with
  | self _ hlt => exact hlt
  | above _ _ hid _ => exact hid

lemma Encloses.top_lt_size : top < p.size := by
  induction h with
  | self _ hlt => exact hlt
  | above _ _ _ _ ih => exact ih

lemma Encloses.top_le : top ≤ id := by
  induction h with
  | self => exact .refl
  | above _ hlt _ _ ih => exact Nat.le_trans ih (Nat.le_of_lt hlt)

lemma Encloses.congr (hsize : p.size ≤ p'.size)
    (hkind : ∀ id < p.size, (p'.node id).kind = (p.node id).kind)
    (habove : ∀ id < p.size, (p'.node id).parent = (p.node id).parent) :
    p'.Encloses wanted top id := by
  induction h with
  | self h hlt => exact .self (by rwa [hkind _ hlt]) (Nat.lt_of_lt_of_le hlt hsize)
  | @above id h hlt hid _ ih =>
    refine .above (by rwa [hkind id hid]) (by rwa [habove id hid]) (Nat.lt_of_lt_of_le hid hsize) ?_
    rwa [habove id hid]

lemma Encloses.grows (hg : p.Grows A p') : p'.Encloses wanted top id :=
  h.congr hg.size_le (fun _ => hg.kind) fun _ => hg.parent

lemma Encloses.enclosing_eq : ∀ n, id < n → Edit.enclosing wanted n id p = .ok top p := by
  induction h with
  | self h _ =>
    intro n hn
    rcases n with _ | n
    · omega
    rw [enclosing_succ, if_pos h]
  | @above id h hlt _ _ ih =>
    intro n hn
    rcases n with _ | n
    · omega
    rw [enclosing_succ, if_neg (by simp [h])]
    exact ih n (Nat.lt_of_lt_of_le hlt (Nat.le_of_lt_succ hn))

end

/-- A node in a function with its parts. -/
structure Inside (f d q id : Nat) (p : Project) : Prop where
  encloses : p.Encloses Kind.boundsFunction f id
  parts : ∃ r more, (p.node f).children = d :: r :: q :: more
  declares : (p.node d).kind = .declares
  declares_lt : d < p.size

lemma Inside.grows (h : p.Inside f d q id) (hg : p.Grows A p') : p'.Inside f d q id := by
  have hf := h.encloses.top_lt_size
  obtain ⟨r, more, hparts⟩ := h.parts
  refine ⟨h.encloses.grows hg, ?_, by rw [hg.kind h.declares_lt, h.declares], hg.lt h.declares_lt⟩
  obtain ⟨rest, hrest⟩ := hg.grown f hf
  exact ⟨r, more ++ rest, by rw [← hrest, hparts]; rfl⟩

lemma Inside.make (h : p.Inside f d q id) (hkind : node.kind.isInner = true) :
    (p.make id node).Inside f d q p.size := by
  have hlt := h.encloses.lt_size
  have hg : p.Grows (· = id) (p.make id node) := grows_make hlt (.inl rfl)
  have h' := h.grows hg
  refine ⟨.above ?_ ?_ ?_ ?_, h'.parts, h'.declares, h'.declares_lt⟩
  · rw [node_make_new _ hlt]
    exact Kind.boundsFunction_eq_false hkind
  · rw [node_make_new _ hlt]
    exact hlt
  · rw [size_make]
    exact Nat.lt_succ_self _
  · rw [node_make_new _ hlt]
    exact h'.encloses

/-- No node has been given rules. -/
def Unruled (p : Project) : Prop :=
  ∀ id, (p.node id).backend = .unknown

lemma Unruled.update (h : p.Unruled) (hg : ∀ node, (g node).backend = node.backend) :
    (p.update id g).Unruled := by
  intro j
  rcases Nat.lt_or_ge j p.size with hj | hj
  · by_cases hid : j = id
    · rw [hid, node_update_self (hid ▸ hj), hg, h]
    · rw [node_update_of_ne hid, h]
  · rw [node_update_of_size_le hj, h]

lemma Unruled.make (h : p.Unruled) (hnode : node.backend = .unknown) :
    (p.make id node).Unruled := by
  refine Unruled.update (fun j => ?_) fun _ => rfl
  rcases Nat.lt_trichotomy j p.size with hj | rfl | hj
  · exact (congrArg Node.backend (node_push_of_lt hj)).trans (h j)
  · simpa [Project.node, size] using hnode
  · rw [node_of_size_le (by simpa [size, Nat.succ_le_iff] using hj)]
    rfl

/-- A variable in a function. -/
structure Declarable (f d q id : Nat) (p : Project) : Prop extends p.Inside f d q id where
  kind : (p.node id).kind = .var
  plain : p.Unruled

lemma Declarable.grows (h : p.Declarable f d q id) (hg : p.Grows A p') (hunruled : p'.Unruled) :
    p'.Declarable f d q id :=
  ⟨h.toInside.grows hg, by rw [hg.kind h.encloses.lt_size, h.kind], hunruled⟩

end Project

/-! ### Steady edits -/

namespace Edit

variable {α β : Type} {P : Project → Prop} {Q : α → Prop} {R : β → Prop} {f d q id : Nat}

variable {g : α → Edit β} {p p' : Project} {x : Edit α} {j : Nat} {head : Head}
  {items trees : List Syntax}

lemma ok_congr {a b : α} (h : a = b) : (.ok a p : EStateM.Result Failure Project α) = .ok b p := by
  rw [h]

lemma bind_ok {a : α} (h : x p = .ok a p') : (x >>= g) p = g a p' := by
  show EStateM.bind x g p = _
  rw [EStateM.bind, h]

lemma bind_run {a : α} {r : EStateM.Result Failure Project β} (h : x p = .ok a p')
    (hg : g a p' = r) : (x >>= g) p = r :=
  (bind_ok h).trans hg

lemma bind_of_run_eq {y : Edit α} {g : α → Edit β} {q : Project} (h : x p = y q) :
    (x >>= g) p = (y >>= g) q := by
  show EStateM.bind x g p = EStateM.bind y g q
  rw [EStateM.bind, EStateM.bind, h]

lemma bind_error {failure : Failure} (h : x p = .error failure p') :
    (x >>= g) p = .error failure p' := by
  show EStateM.bind x g p = _
  rw [EStateM.bind, h]

/-- Whether a computation succeeds, with a result and a project that pass a test. -/
def passes (x : Edit α) (p : Project) (test : α → Project → Bool) : Bool :=
  match x p with
  | .ok a q => test a q
  | .error _ _ => false

lemma exists_of_passes {test : α → Project → Bool} (h : x.passes p test = true) :
    ∃ a q, x p = .ok a q ∧ test a q = true := by
  unfold passes at h
  split at h
  · next a q hrun => exact ⟨a, q, hrun, h⟩
  · cases h

lemma exists_of_bind_ok {b : β} (h : (x >>= g) p = .ok b p') :
    ∃ a p1, x p = .ok a p1 ∧ g a p1 = .ok b p' := by
  cases hx : x p with
  | ok a p1 => exact ⟨a, p1, rfl, (bind_ok hx).symm.trans h⟩
  | error failure p1 =>
    have herror : (x >>= g) p = .error failure p1 := by
      show EStateM.bind x g p = _
      simp only [EStateM.bind, hx]
    rw [herror] at h
    cases h

/-- From every project with an invariant, an edit succeeds, keeps the invariant and adds nothing
but declared variables. -/
def Steady (P : Project → Prop) (x : Edit α) (Q : α → Prop) : Prop :=
  ∀ p, P p → ∃ a p', x p = .ok a p' ∧ p.Grows (fun _ => False) p' ∧ P p' ∧ Q a

lemma Steady.bind (hx : Steady P x Q) (hg : ∀ a, Q a → Steady P (g a) R) :
    Steady P (x >>= g) R := by
  intro p hp
  obtain ⟨a, p', hxp, hgrows, hp', ha⟩ := hx p hp
  obtain ⟨b, p'', hgp, hgrows', hp'', hb⟩ := hg a ha p' hp'
  exact ⟨b, p'', bind_run hxp hgp, hgrows.trans hgrows' fun _ _ h => h, hp'', hb⟩

lemma Steady.of_reads (h : ∀ p, P p → ∃ a, x p = .ok a p ∧ Q a) : Steady P x Q := by
  intro p hp
  obtain ⟨a, hx, ha⟩ := h p hp
  exact ⟨a, p, hx, .refl _ p, hp, ha⟩

lemma steady_read {g : Project → α} (h : ∀ p, x p = .ok (g p) p) : Steady P x fun _ => True :=
  .of_reads fun p _ => ⟨g p, h p, trivial⟩

lemma steady_pure {a : α} (h : Q a) : Steady P (pure a) Q :=
  .of_reads fun _ _ => ⟨a, rfl, h⟩

lemma steady_node {Q : Node → Prop} (h : ∀ p, P p → Q (p.node j)) : Steady P (node j) Q :=
  .of_reads fun p hp => ⟨p.node j, rfl, h p hp⟩

lemma node_bind {g : Node → Edit α} : (node j >>= g) p = g (p.node j) p := rfl

lemma names_bind {g : List String → Edit α} :
    (names j >>= g) p = g (p.namesBelow j) p := rfl

lemma child_natCast_eq {i c : Nat} (h : (p.node j).children[i]? = some c) :
    child j i p = .ok c p := by
  obtain ⟨hi, -⟩ := List.getElem?_eq_some_iff.mp h
  rw [child, node_bind]
  simp only [Int.not_lt.mpr (Int.natCast_nonneg i), Int.toNat_natCast, h, show ¬ ((p.node
    j).children.length : Int) ≤ i by omega, ite_false]
  rfl

lemma exists_childNamed_eq {n : String} (h : n ∈ p.namesBelow j) :
    ∃ c ∈ (p.node j).children, childNamed j n p = .ok c p := by
  obtain ⟨i, hi⟩ := Option.isSome_iff_exists.mp (isSome_idxOf?.mpr h)
  have hlt := length_map _ ▸ (idxOf?_eq_some_iff.mp hi).1
  refine ⟨(p.node j).children[i], getElem_mem hlt, ?_⟩
  rw [childNamed, names_bind, hi]
  exact child_natCast_eq (getElem?_eq_getElem hlt)

lemma steady_childNamed {n : String} {g : Nat → Edit α} {other : Edit α}
    (hg : ∀ c, Steady P (g c) Q) (hother : Steady P other Q) :
    Steady P (do if ← hasChild j n then g (← childNamed j n) else other) Q := by
  intro p hp
  show ∃ a p', (if _ = true then _ else _ : Edit α) p = .ok a p' ∧ _
  split
  case isTrue htrue =>
    obtain ⟨c, -, hc⟩ := exists_childNamed_eq (contains_iff_mem.mp htrue)
    obtain ⟨a, p', ha, h⟩ := hg c p hp
    exact ⟨a, p', bind_run hc ha, h⟩
  case isFalse => exact hother p hp

/-! ### Declaring a variable -/

lemma steady_update {g : Node → Node}
    (hg : ∀ node, (g node).label = node.label ∧ (g node).children = node.children ∧
      (g node).backend = node.backend) :
    Steady (Project.Declarable f d q id) (update j g) fun _ => True := by
  intro p hp
  have hgrows : p.Grows (fun _ => False) (p.update j g) :=
    grows_update fun node => ⟨(hg node).1, (hg node).2.1⟩
  exact ⟨(), p.update j g, rfl, hgrows, hp.grows hgrows (hp.plain.update fun node => (hg node).2.2),
    trivial⟩

lemma steady_make {node : Node} (hnode : node.backend = .unknown) :
    Steady (Project.Declarable f d q id) (make d node) fun _ => True := by
  intro p hp
  have hgrows : p.Grows (fun _ => False) (p.make d node) :=
    grows_make hp.declares_lt (.inr hp.declares)
  exact ⟨p.size, p.make d node, rfl, hgrows, hp.grows hgrows (hp.plain.make hnode), trivial⟩

lemma func_eq (h : p.Encloses Kind.boundsFunction f id) : func id p = .ok f p :=
  h.enclosing_eq (p.size + 1) (Nat.lt_succ_of_lt h.lt_size)

lemma steady_declaresOf : Steady (Project.Declarable f d q id) (declaresOf id) (· = d) := by
  refine .bind (.of_reads fun p hp => ⟨f, func_eq hp.encloses, rfl⟩) ?_
  rintro _ rfl
  refine .of_reads fun p hp => ?_
  obtain ⟨r, more, hparts⟩ := hp.parts
  exact ⟨d, child_natCast_eq (by rw [hparts]; rfl), rfl⟩

lemma steady_paramsOf : Steady (Project.Declarable f d q id) (paramsOf id) (· = q) := by
  refine .bind (.of_reads fun p hp => ⟨f, func_eq hp.encloses, rfl⟩) ?_
  rintro _ rfl
  refine .of_reads fun p hp => ?_
  obtain ⟨r, more, hparts⟩ := hp.parts
  exact ⟨q, child_natCast_eq (by rw [hparts]; rfl), rfl⟩

lemma steady_found : Steady (Project.Declarable f d q id) (found id j) fun _ => True :=
  Steady.bind (steady_update fun _ => ⟨rfl, rfl, rfl⟩) fun _ _ => steady_pure trivial

lemma steady_variableDeclaration :
    Steady (Project.Declarable f d q id) (variableDeclaration id) fun _ => True := by
  refine .bind (steady_read fun _ => rfl) fun name _ => ?_
  refine steady_declaresOf.bind ?_
  rintro _ rfl
  refine steady_childNamed (fun _ => steady_found) ?_
  refine steady_paramsOf.bind ?_
  rintro _ rfl
  exact steady_childNamed (fun _ => steady_found) (steady_pure trivial)

lemma steady_declaration : Steady (Project.Declarable f d q id) (declaration id) fun _ => True := by
  refine (steady_node (Q := fun node => node.kind = .var ∧ node.backend = .unknown)
    fun p hp => ⟨hp.kind, hp.plain id⟩).bind fun node ⟨hkind, hbackend⟩ => ?_
  cases node.declare? with
  | some j => exact steady_pure trivial
  | none =>
    simp only [hkind, hbackend]
    refine .bind (steady_read fun _ => rfl) fun above _ => ?_
    split
    · exact steady_pure trivial
    · exact steady_variableDeclaration

lemma steady_typeOf : Steady (Project.Declarable f d q id) (typeOf id) fun _ => True := by
  refine .bind (steady_read fun _ => rfl) fun node _ => ?_
  split
  · refine steady_declaration.bind fun j _ => ?_
    exact .bind (steady_read fun _ => rfl) fun _ _ => steady_pure trivial
  · exact steady_pure trivial

lemma steady_setType {type : Datatype} :
    Steady (Project.Declarable f d q id) (setType j type) fun _ => True :=
  steady_update fun _ => ⟨rfl, rfl, rfl⟩

lemma steady_declareVariable :
    Steady (Project.Declarable f d q id) (declareVariable id) fun _ => True := by
  refine .bind (steady_read fun _ => rfl) fun name _ => ?_
  refine steady_declaresOf.bind ?_
  rintro _ rfl
  refine steady_childNamed (fun declared => ?_) ?_
  · refine steady_typeOf.bind fun type _ => steady_setType.bind fun _ _ => ?_
    exact .bind (steady_read fun _ => rfl) fun _ _ => steady_update fun _ => ⟨rfl, rfl, rfl⟩
  · refine .bind (steady_read fun _ => rfl) fun node _ => ?_
    refine (steady_make rfl).bind fun declared _ => ?_
    exact steady_typeOf.bind fun type _ => steady_setType

/-- Asking for the declaration of a variable adds nothing but declared variables. -/
lemma steady_declare : Steady (Project.Declarable f d q id) (declare id) fun _ => True := by
  refine steady_declaration.bind fun declaration _ => ?_
  split
  · exact steady_pure trivial
  · refine (steady_node (Q := fun node => node.kind = .var) fun p hp => hp.kind).bind
      fun node hkind => ?_
    simp only [hkind]
    exact steady_declareVariable

/-! ### Building below a node -/

/-- An edit puts nodes with some outlines below a node, which all are new. -/
def Installs (x : Edit Unit) (A : Nat → Prop) (parent : Nat) (p : Project)
    (os : List Outline) : Prop :=
  ∃ p' ids, x p = .ok () p' ∧ p.Grows A p' ∧ p'.Unruled ∧
    (p'.node parent).children = (p.node parent).children ++ ids ∧ (∀ id ∈ ids, p.size ≤ id) ∧
    p'.BearsAll parent ids os

variable {p p' : Project} {parent : Nat} {A : Nat → Prop} {os os' : List Outline}

lemma installs_pure (hp : p.Unruled) : Installs (pure ()) A parent p [] :=
  ⟨p, [], rfl, .refl A p, hp, (append_nil _).symm, fun _ h => absurd h not_mem_nil, rfl⟩

lemma Installs.bind {x y : Edit Unit} (hx : Installs x A parent p os) (hA : ∀ j, A j → j < p.size)
    (hy : ∀ p', x p = .ok () p' → p.Grows A p' → p'.Unruled → Installs y A parent p' os') :
    Installs (x >>= fun _ => y) A parent p (os ++ os') := by
  obtain ⟨p', ids, hxp, hgrows, hunruled, hids, hnew, hos⟩ := hx
  obtain ⟨p'', ids', hyp, hgrows', hunruled', hids', hnew', hos'⟩ := hy p' hxp hgrows hunruled
  refine ⟨p'', ids ++ ids', bind_run hxp hyp, hgrows.trans hgrows' fun _ _ h => h,
    hunruled', ?_, ?_, bearsAll_append (hos.grows hgrows' (fun id hid _ j hj => ?_) os) hos'⟩
  · rw [hids', hids, append_assoc]
  · intro id hid
    rcases mem_append.mp hid with h | h
    · exact hnew id h
    · exact Nat.le_trans hgrows.size_le (hnew' id h)
  · exact Nat.lt_of_lt_of_le (hA j hj) (hnew id hid)

lemma Installs.mono {B : Nat → Prop} {x : Edit Unit} (h : Installs x A parent p os)
    (hB : ∀ j, A j → B j) : Installs x B parent p os := by
  obtain ⟨p', ids, hx, hgrows, rest⟩ := h
  exact ⟨p', ids, hx, hgrows.mono fun j _ => hB j, rest⟩

section

variable (hparent : parent < p.size) (hkind : (p.node parent).kind ≠ .declares)
  (h : Installs (install p.size items) (· = p.size) p.size (p.make parent (.ofHead head))
    (outlines items))

include hparent hkind h

lemma Installs.exists_make : ∃ p', install p.size items (p.make parent (.ofHead head)) = .ok () p' ∧
      p.Grows (· = parent) p' ∧ p'.Unruled ∧
      (p'.node parent).children = (p.node parent).children ++ [p.size] ∧
      p'.BearsAll parent [p.size] (outline (.node head items)) := by
  obtain ⟨p', ids, hinstall, hgrows, hunruled, hids, hnew, hos⟩ := h
  have hmake : p.Grows (· = parent) (p.make parent (.ofHead head)) :=
    grows_make hparent (.inl rfl)
  have hsize : p.size < (p.make parent (.ofHead head)).size := by
    rw [size_make]
    exact Nat.lt_succ_self _
  have hlt : parent < (p.make parent (.ofHead head)).size := Nat.lt_trans hparent hsize
  have hnode := node_make_new (.ofHead head) hparent
  rw [hnode] at hids
  refine ⟨p', hinstall, hmake.trans hgrows ?_, hunruled, ?_, p.size, [], rfl, hparent, ?_,
    ⟨hgrows.lt hsize, ?_, ?_, ?_, ?_⟩, rfl⟩
  · rintro j hj rfl
    exact absurd hj (Nat.lt_irrefl _)
  · rw [hgrows.children parent hlt (Nat.ne_of_lt hparent) (by rwa [hmake.kind hparent]),
      node_make_parent hparent]
  · rw [hgrows.parent hsize, hnode]
  · rw [hgrows.kind hsize, hnode]
    rfl
  · rw [hgrows.name hsize, hnode]
    rfl
  · rw [hgrows.value hsize, hnode]
    rfl
  · split
    · rfl
    · rw [hids]
      exact hos

lemma Installs.make :
    Installs (do install (← Edit.make parent (.ofHead head)) items) (· = parent) parent p
      (outline (.node head items)) := by
  obtain ⟨p', hinstall, hgrows, hunruled, hids, hos⟩ := h.exists_make hparent hkind
  refine ⟨p', [p.size], hinstall, hgrows, hunruled, hids, fun id hid => ?_, hos⟩
  exact Nat.le_of_eq (mem_singleton.mp hid).symm

end

lemma installItem_eq (hlambda : head.kind ≠ .lambda) (hfunc : head.kind ≠ .func) :
    installItem parent (.node head items) =
      (do install (← Edit.make parent (.ofHead head)) items) := by
  rw [installItem, if_neg (by simpa using hlambda), if_pos (by simpa using hfunc)]

mutual

lemma installs_inner : ∀ (tree : Syntax) {p : Project} {parent : Nat}, tree.Inner →
    p.Inside f d q parent → p.Unruled → (p.node parent).kind ≠ .declares →
    Installs (installItem parent tree) (· = parent) parent p tree.outline
  | .declare, _, _, h, _, _, _ => h.elim
  | .node head items, p, parent, ⟨hkind, hitems⟩, hinside, hp, hdeclares => by
    have hparent := hinside.encloses.lt_size
    have hne : ∀ kind, kind.isInner = false → head.kind ≠ kind := by
      rintro kind h rfl
      exact absurd (hkind.symm.trans h) (by decide)
    have hinside' : (p.make parent (.ofHead head)).Inside f d q p.size := hinside.make hkind
    have hp' : (p.make parent (.ofHead head)).Unruled := hp.make rfl
    have hnode := node_make_new (.ofHead head) hparent
    rw [installItem_eq (hne _ rfl) (hne _ rfl)]
    refine .make hparent hdeclares ?_
    rcases hitems with ⟨hvar, rfl⟩ | hitems
    · obtain ⟨_, p', hdeclare, hgrows, hafter, _⟩ :=
        steady_declare _ ⟨hinside', by rw [hnode]; exact hvar, hp'⟩
      refine ⟨p', [], bind_ok hdeclare, hgrows.mono fun _ _ h => h.elim, hafter.plain, ?_,
        fun _ h => absurd h not_mem_nil, rfl⟩
      rw [hgrows.children p.size hinside'.encloses.lt_size id (by rw [hnode]; exact hne _ rfl),
        append_nil]
    · exact installs_inners items hitems hinside' hp' (by rw [hnode]; exact hne _ rfl)

lemma installs_inners : ∀ (trees : List Syntax) {p : Project} {parent : Nat},
    Syntax.Inners trees → p.Inside f d q parent → p.Unruled → (p.node parent).kind ≠ .declares →
    Installs (install parent trees) (· = parent) parent p (outlines trees)
  | [], _, _, _, _, hp, _ => installs_pure hp
  | tree :: rest, p, parent, ⟨htree, hrest⟩, hinside, hp, hdeclares => by
    have hparent := hinside.encloses.lt_size
    refine (installs_inner tree htree hinside hp hdeclares).bind ?_ fun p' _ hgrows hp' => ?_
    · rintro j rfl
      exact hparent
    · exact installs_inners rest hrest (hinside.grows hgrows) hp' (by rwa [hgrows.kind hparent])

end

/-! ### Functions -/

lemma installs_names (h : ∀ tree ∈ trees, tree.IsName) (hparent : parent < p.size)
    (hdeclares : (p.node parent).kind ≠ .declares) (hp : p.Unruled) :
    Installs (install parent trees) (· = parent) parent p (outlines trees) := by
  induction trees generalizing p with
  | nil => exact installs_pure hp
  | cons tree trees ih =>
    refine .bind ?_ ?_ fun p' _ hgrows hp' => ?_
    · match tree, h tree (.head _) with
      | .node head _, ⟨hvar, rfl⟩ =>
        rw [installItem_eq (by simp [hvar]) (by simp [hvar])]
        refine .make hparent hdeclares ?_
        exact installs_pure (hp.make rfl)
    · rintro j rfl
      exact hparent
    · exact ih (fun u hu => h u (.tail _ hu)) (hgrows.lt hparent) (by rwa [hgrows.kind hparent]) hp'

lemma installs_listing {names : List Syntax} (h : ∀ name ∈ names, name.IsName)
    (hlambda : head.kind ≠ .lambda) (hfunc : head.kind ≠ .func) (hhead : head.kind ≠ .declares)
    (hparent : parent < p.size) (hdeclares : (p.node parent).kind ≠ .declares) (hp : p.Unruled) :
    Installs (installItem parent (.node head names)) (· = parent) parent p
      (outline (.node head names)) := by
  rw [installItem_eq hlambda hfunc]
  refine .make hparent hdeclares (installs_names h ?_ ?_ (hp.make rfl))
  · rw [size_make]
    exact Nat.lt_succ_self _
  · rw [node_make_new _ hparent]
    exact hhead

lemma install_append (xs ys : List Syntax) :
    install parent (xs ++ ys) = (do install parent xs; install parent ys) := by
  induction xs with
  | nil => rfl
  | cons x xs ih => rw [cons_append, install, install, ih, bind_assoc]

lemma inside_of_bearsAll {kind : Kind} {name value : String} {below : List Outline}
    {o o' : Outline} (hdeclares : kind = .declares) (hlt : f < p.size)
    (hkind : (p.node f).kind = .func ∨ (p.node f).kind = .main)
    (h : p.BearsAll f (p.node f).children (.node kind name value below :: o :: o' :: os)) :
    ∃ d r q more, (p.node f).children = d :: r :: q :: more ∧ p.Inside f d q f ∧
      f < r ∧ (p.node r).parent = f ∧ p.Bears r o := by
  obtain ⟨d, _, hids, _, _, hd, r, _, rfl, hr, hparent, ho, q, more, rfl, _⟩ := h
  refine ⟨d, r, q, more, hids, ⟨.self ?_ hlt, ⟨r, more, hids⟩, hd.2.1.trans hdeclares, hd.1⟩,
    hr, hparent, ho⟩
  rcases hkind with h | h <;> rw [h] <;> rfl

lemma mem_of_bearsAll_names {ids : List Nat} (htrees : ∀ tree ∈ trees, tree.IsName)
    (h : p.BearsAll parent ids (outlines trees)) :
    ∀ id ∈ ids, id < p.size ∧ (p.node id).kind = .var ∧ parent < id ∧
      (p.node id).parent = parent := by
  induction trees generalizing ids with
  | nil =>
    obtain rfl : ids = [] := h
    exact fun _ hid => absurd hid not_mem_nil
  | cons tree trees ih =>
    match tree, htrees tree (.head _) with
    | .node head _, ⟨hvar, rfl⟩ =>
      obtain ⟨j, rest, rfl, hlt, hparent, ⟨hj, hkind, _⟩, hrest⟩ := h
      intro id hid
      rcases mem_cons.mp hid with rfl | hid
      · exact ⟨hj, hkind.trans hvar, hlt, hparent⟩
      · exact ih (fun u hu => htrees u (.tail _ hu)) hrest id hid

lemma declareAll_eq {ids : List Nat} (h : ∀ id ∈ ids, p.Declarable f d q id) (hp : p.Unruled) :
    ∃ p', declareAll ids p = .ok () p' ∧ p.Grows (fun _ => False) p' ∧ p'.Unruled := by
  induction ids generalizing p with
  | nil => exact ⟨p, rfl, .refl _ p, hp⟩
  | cons id ids ih =>
    obtain ⟨_, p', hdeclare, hgrows, hafter, _⟩ := steady_declare p (h id (.head _))
    obtain ⟨p'', hrest, hgrows', hunruled⟩ := ih
      (fun j hj => (h j (.tail _ hj)).grows hgrows hafter.plain) hafter.plain
    exact ⟨p'', bind_run hdeclare hrest, hgrows.trans hgrows' fun _ _ h => h, hunruled⟩

lemma installs_parts {declares returns params : Head} {rs ps : List Syntax} {block : Syntax}
    (hdeclares : declares.kind = .declares) (hreturns : returns.kind = .returns)
    (hparams : params.kind = .params) (hrs : ∀ r ∈ rs, r.IsName) (hps : ∀ q ∈ ps, q.IsName)
    (hblock : block.Inner) (hf : f < p.size)
    (hkind : (p.node f).kind = .func ∨ (p.node f).kind = .main)
    (hchildren : (p.node f).children = []) (hp : p.Unruled) :
    Installs (install f [.node declares [], .node returns rs, .node params ps, block]) (· = f) f p
      (Syntax.outlines [.node declares [], .node returns rs, .node params ps, block]) := by
  have hne : (p.node f).kind ≠ .declares := by
    rcases hkind with h | h <;> rw [h] <;> decide
  have hopen : ∀ j, j = f → j < p.size := by
    rintro j rfl
    exact hf
  have hhead : Installs (install f [.node declares [], .node returns rs, .node params ps]) (· = f) f
    p
      (outlines [.node declares [], .node returns rs, .node params ps]) := by
    refine .bind ?_ hopen fun p1 _ hg1 hp1 => ?_
    · rw [installItem_eq (by simp [hdeclares]) (by simp [hdeclares])]
      exact .make hf hne (installs_pure (hp.make rfl))
    have hf1 := hg1.lt hf
    have hne1 : (p1.node f).kind ≠ .declares := by rwa [hg1.kind hf]
    refine .bind (installs_listing hrs (by simp [hreturns]) (by simp [hreturns])
      (by simp [hreturns]) hf1 hne1 hp1) (fun j hj => hj ▸ hf1) fun p2 _ hg2 hp2 => ?_
    have hf2 := hg2.lt hf1
    have hne2 : (p2.node f).kind ≠ .declares := by rwa [hg2.kind hf1]
    exact .bind (installs_listing hps (by simp [hparams]) (by simp [hparams])
      (by simp [hparams]) hf2 hne2 hp2) (fun j hj => hj ▸ hf2) fun p3 _ _ hp3 => installs_pure hp3
  rw [show [Syntax.node declares [], .node returns rs, .node params ps, block] = [.node declares [],
    .node returns rs, .node params ps] ++ [block] from rfl, install_append]
  refine hhead.bind hopen fun p' hinstall hgrows hp' => ?_
  obtain ⟨_, ids, hinstall', _, _, hids, _, hos⟩ := hhead
  obtain rfl : p' = _ := (EStateM.Result.ok.inj (hinstall.symm.trans hinstall')).2
  rw [hchildren, nil_append] at hids
  obtain ⟨d, r, q, more, _, hinside, _⟩ := inside_of_bearsAll hdeclares
    (hgrows.lt hf) (by rwa [hgrows.kind hf]) (hids ▸ hos)
  exact installs_inners [block] ⟨hblock, trivial⟩ hinside hp' (by rwa [hgrows.kind hf])

/-! ### Programs -/

end Edit

/-- The parts of a program in a project of its own: the program is the first node below the root,
and its parts follow it. -/
structure Project.Frame (p : Project) : Prop where
  size : 8 ≤ p.size
  kind_root : (p.node 0).kind = .project
  children_root : (p.node 0).children = [1]
  kind_program : (p.node 1).kind = .program
  children_program : (p.node 1).children = [2, 3, 4, 5, 6, 7]
  kind_funcs : (p.node 3).kind = .funcs
  parent_funcs : (p.node 3).parent = 1
  kind_headers : (p.node 6).kind = .headers

namespace Project

variable {p p' : Project}

/-- The nodes of a program that get more nodes below them: functions and headers. -/
def growing (j : Nat) : Prop :=
  j = 3 ∨ j = 6

lemma Frame.growing_lt (h : p.Frame) : ∀ j, growing j → j < p.size := by
  have := h.size
  rintro j (rfl | rfl) <;> omega

lemma Frame.grows (h : p.Frame) (hg : p.Grows growing p') : p'.Frame := by
  have hsize := h.size
  have hkind : ∀ {j : Nat} {kind : Kind}, j < 8 → (p.node j).kind = kind →
      (p'.node j).kind = kind := by
    intro j kind hj hkind
    rw [hg.kind (by omega), hkind]
  have hchildren : ∀ {j : Nat}, j < 3 → (p.node j).kind ≠ .declares →
      (p'.node j).children = (p.node j).children := by
    intro j hj hne
    exact hg.children j (by omega) (by unfold growing; omega) hne
  refine ⟨Nat.le_trans hsize hg.size_le, hkind (by decide) h.kind_root, ?_,
    hkind (by decide) h.kind_program, ?_, hkind (by decide) h.kind_funcs, ?_,
    hkind (by decide) h.kind_headers⟩
  · rw [hchildren (by decide) (by simp [h.kind_root]), h.children_root]
  · rw [hchildren (by decide) (by simp [h.kind_program]), h.children_program]
  · rw [hg.parent (Nat.lt_of_lt_of_le (by decide) hsize), h.parent_funcs]

end Project

namespace Edit

variable {p : Project} {f : Nat}

lemma headersOf_eq (h : p.Frame) (hlt : 7 < f) (hf : f < p.size)
    (hkind : (p.node f).kind = .func) (hparent : (p.node f).parent = 3) :
    headersOf f p = .ok 6 p := by
  have hsize := h.size
  have hencloses : p.Encloses (fun kind => kind == .program || kind == .project) 1 f := by
    refine .above (by simp [hkind]) ?_ hf ?_
    · rw [hparent]
      exact Nat.lt_trans (by decide) hlt
    · rw [hparent]
      refine .above (by simp [h.kind_funcs]) ?_ (Nat.lt_of_lt_of_le (by decide) hsize) ?_
      · rw [h.parent_funcs]
        decide
      · rw [h.parent_funcs]
        exact .self (by simp [h.kind_program]) (Nat.lt_of_lt_of_le (by decide) hsize)
  have hprogram : program f p = .ok 1 p :=
    hencloses.enclosing_eq (p.size + 1) (Nat.lt_succ_of_lt hf)
  refine bind_run hprogram (child_natCast_eq ?_)
  rw [h.children_program]
  rfl

/-- A function of the program is completed: its results are declared, and it gets a header. -/
lemma completeFunction_eq {head declares returns : Head} {rs : List Syntax} {o : Outline}
    {os : List Outline} (hp : p.Unruled) (hframe : p.Frame) (hhead : head.kind = .func)
    (hdeclares : declares.kind = .declares) (hreturns : returns.kind = .returns)
    (hrs : ∀ r ∈ rs, r.IsName) (hparent : (p.node f).parent = 3) (hlt : 7 < f)
    (h : p.Bears f (.node head.kind head.name head.value
      (outlines [.node declares [], .node returns rs] ++ o :: os))) :
    ∃ p', completeFunction f p = .ok () p' ∧ p.Grows (· = 6) p' ∧ p'.Unruled := by
  obtain ⟨hf, hkind, _, _, hparts⟩ := h
  rw [hhead] at hkind hparts
  obtain ⟨d, r, q, more, hchildren, hinside, hr, hrparent, hrlt, hrkind, _, _, hrs'⟩ :=
    inside_of_bearsAll hdeclares hf (.inl hkind) hparts
  rw [hreturns] at hrkind hrs'
  have hresults : ∀ id ∈ (p.node r).children, p.Declarable f d q id := by
    intro id hid
    obtain ⟨hlt, hvar, hrid, hidparent⟩ := mem_of_bearsAll_names hrs hrs' id hid
    refine ⟨⟨.above ?_ ?_ hlt ?_, hinside.parts, hinside.declares, hinside.declares_lt⟩, hvar, hp⟩
    · rw [hvar]
      rfl
    · rwa [hidparent]
    · rw [hidparent]
      refine .above ?_ ?_ hrlt ?_
      · rw [hrkind]
        rfl
      · rwa [hrparent]
      · rw [hrparent]
        exact hinside.encloses
  obtain ⟨p', hdeclare, hgrows, hp'⟩ := declareAll_eq hresults hp
  have hframe' : p'.Frame := hframe.grows (hgrows.mono fun _ _ h => h.elim)
  have hheaders : headersOf f p' = .ok 6 p' :=
    headersOf_eq hframe' hlt (hgrows.lt hf)
      (by rw [hgrows.kind hf, hkind]) (by rw [hgrows.parent hf, hparent])
  have h6 : 6 < p'.size := Nat.lt_of_lt_of_le (by decide) hframe'.size
  refine ⟨p'.make 6 { kind := .header, name := (p'.node f).name }, ?_, ?_, hp'.make rfl⟩
  · refine bind_run (child_natCast_eq (by rw [hchildren]; rfl)) ?_
    show (declareAll (p.node r).children >>= _) p = _
    refine bind_run hdeclare ?_
    exact bind_run hheaders rfl
  · exact (hgrows.mono fun _ _ h => h.elim).trans
      (grows_make (A := (· = 6)) h6 (.inl rfl)) fun _ _ h => h

lemma installs_func {tree : Syntax} (h : tree.IsFunc) (hp : p.Unruled) (hframe : p.Frame) :
    Installs (installItem 3 tree) growing 3 p tree.outline := by
  obtain @⟨head, declares, returns, params, rs, ps, block, hkind, hdeclares, hreturns, hparams, hrs,
    hps, hblock⟩ := h
  have hsize := hframe.size
  have hfuncs : 3 < p.size := Nat.lt_of_lt_of_le (by decide) hsize
  have hne : (p.node 3).kind ≠ .declares := by simp [hframe.kind_funcs]
  have hnew := node_make_new (.ofHead head) hfuncs
  have hparts := installs_parts (p := p.make 3 (.ofHead head)) hdeclares hreturns
    hparams hrs hps hblock (by rw [size_make]; exact Nat.lt_succ_self _) (by rwa [hnew])
    (by rw [hnew]; rfl) (hp.make rfl)
  rcases hkind with hfunc | hmain
  · obtain ⟨p', hinstall, hgrows, hp', hids, hos⟩ := hparts.exists_make hfuncs hne
    have hframe' := hframe.grows (hgrows.mono fun _ _ h => .inl h)
    have hf := hos
    obtain ⟨_, _, ⟨⟩, _, hparent, hbears, _⟩ := hf
    have hrun : installItem 3 (.node head
        [.node declares [], .node returns rs, .node params ps, block]) p =
        (if head.code?.isSome then completeFunction p.size else pure ()) p' := by
      rw [installItem, if_neg (by simp [hfunc]), if_neg (by simp [hfunc])]
      show (if ((p.node 3).kind == .funcs) = true then _ else _ : Edit Unit) p = _
      rw [if_pos (by simp [hframe.kind_funcs])]
      exact bind_ok hinstall
    obtain ⟨p'', hcomplete, hgrows', hp''⟩ : ∃ p'',
        (if head.code?.isSome then completeFunction p.size else pure ()) p' = .ok () p'' ∧
          p'.Grows (· = 6) p'' ∧ p''.Unruled := by
      split
      · exact completeFunction_eq hp' hframe' hfunc hdeclares hreturns hrs hparent hsize
          (by simpa [Syntax.outline, outlines, hfunc] using hbears)
      · exact ⟨p', rfl, .refl _ p', hp'⟩
    have hlt := hgrows.lt hfuncs
    refine ⟨p'', [p.size], hrun.trans hcomplete, ?_, hp'', ?_, ?_, ?_⟩
    · exact (hgrows.mono fun _ _ h => .inl h).trans hgrows' fun _ _ h => .inr h
    · rw [hgrows'.children 3 hlt (by decide) (by simp [hframe'.kind_funcs]), hids]
    · intro id hid
      exact Nat.le_of_eq (mem_singleton.mp hid).symm
    · refine hos.grows hgrows' (fun id hid _ j hj => ?_) _
      rw [mem_singleton.mp hid, hj]
      exact Nat.lt_of_lt_of_le (by decide) hsize
  · rw [installItem_eq (by simp [hmain]) (by simp [hmain])]
    exact (hparts.make hfuncs hne).mono fun _ h => .inl h

lemma installs_funcs {trees : List Syntax} (h : ∀ tree ∈ trees, tree.IsFunc) (hp : p.Unruled)
    (hframe : p.Frame) :
    Installs (install 3 trees) growing 3 p (outlines trees) := by
  induction trees generalizing p with
  | nil => exact installs_pure hp
  | cons tree trees ih =>
    refine (installs_func (h tree (.head _)) hp hframe).bind hframe.growing_lt
      fun p' _ hgrows hp' => ?_
    exact ih (fun u hu => h u (.tail _ hu)) hp' (hframe.grows hgrows)

end Edit

end ArmaGen
