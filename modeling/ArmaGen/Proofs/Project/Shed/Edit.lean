import ArmaGen.Proofs.Project.Install
import ArmaGen.Proofs.Project.Shed

/-!
# Edits of projects without some nodes

`Edit.Follows` relates a computation on a project to one on the project without the nodes of some
kinds: both fail in the same way, or both succeed, with projects and results that are so related
again.
-/

namespace ArmaGen.Edit

open List

open Project

variable {cut : Cut} {g : Growth} {p p' q q' : Project}
  {α α' β β' : Type}

/-- Both computations fail in the same way, or both succeed with related results; in either case
they leave related projects. -/
def Follows (cut : Cut) (g : Growth) (p p' : Project) (m : Edit α)
    (m' : Edit α') (R : Project → α → α' → Prop) : Prop :=
  match m p, m' p' with
  | .ok a q, .ok a' q' => q.Sheds cut q' ∧ p.Extends cut g q ∧ R q a a'
  | .error failure q, .error failure' q' => failure = failure' ∧ q.Sheds cut q' ∧ p.Alters cut q
  | _, _ => False

variable {m : Edit α} {m' : Edit α'} {f : α → Edit β} {f' : α' → Edit β'}
  {R : Project → α → α' → Prop} {S : Project → β → β' → Prop}

lemma follows_pure {a : α} {a' : α'} (h : p.Sheds cut p') (hR : R p a a') :
    Follows cut g p p' (pure a) (pure a') R :=
  ⟨h, .refl, hR⟩

lemma follows_throw (h : p.Sheds cut p') (failure : Failure) :
    Follows cut g p p' (throw failure) (throw failure) R :=
  ⟨rfl, h, .of_nodes_eq rfl rfl⟩

variable {g' : Growth} {above' : Nat} {n : Edit α} {n' : Edit α'} {R' : Project → α → α' → Prop}
  {wanted : Kind → Bool}

lemma Follows.of_run (hm : m p = n q) (hm' : m' p' = n' q') (hpq : p.Extends cut g q)
    (habove : above' = g.above ∨ p.size ≤ above') (h : Follows cut ⟨g.opened, above'⟩ q q' n n' R) :
    Follows cut g p p' m m' R := by
  unfold Follows at h ⊢
  rw [hm, hm']
  split at h
  · exact ⟨h.1, hpq.trans h.2.1 habove, h.2.2⟩
  · exact ⟨h.1, h.2.1, hpq.toAlters.trans h.2.2⟩
  · exact h

section

variable (hm : Follows cut g' p p' m m' R)
  (hextends : ∀ q, p.Extends cut g' q → p.Extends cut g q)

include hm hextends

lemma Follows.bind_new (hf : ∀ q q' a a', m p = .ok a q → m' p' = .ok a' q' → q.Sheds cut q' →
      p.Extends cut g' q → R q a a' →
      ∃ new, (new = g.above ∨ p.size ≤ new) ∧ Follows cut ⟨g.opened, new⟩ q q' (f a) (f' a') S) :
    Follows cut g p p' (m >>= f) (m' >>= f') S := by
  unfold Follows at hm
  split at hm
  · next a q a' q' hrun hrun' =>
    obtain ⟨hsheds, hpq, hR⟩ := hm
    obtain ⟨new, hnew, hnext⟩ := hf q q' a a' hrun hrun' hsheds hpq hR
    exact .of_run (bind_ok hrun) (bind_ok hrun') (hextends q hpq) hnew hnext
  · next hrun hrun' =>
    unfold Follows
    rw [bind_error hrun, bind_error hrun']
    exact hm
  · exact hm.elim

lemma Follows.bind_of (hf : ∀ q q' a a', q.Sheds cut q' → p.Extends cut g' q → R q a a' →
      Follows cut g q q' (f a) (f' a') S) :
    Follows cut g p p' (m >>= f) (m' >>= f') S :=
  hm.bind_new hextends fun q q' a a' _ _ hq hpq hR => ⟨g.above, .inl rfl, hf q q' a a' hq hpq hR⟩

end

lemma Follows.bind (hm : Follows cut g p p' m m' R)
    (hf : ∀ q q' a a', q.Sheds cut q' → p.Extends cut g q → R q a a' →
      Follows cut g q q' (f a) (f' a') S) :
    Follows cut g p p' (m >>= f) (m' >>= f') S :=
  hm.bind_of (fun _ h => h) hf

lemma Follows.of_step {a : α} {m' : Edit β'} (hm : m p = .ok a q)
    (hpq : p.Extends cut g q) (h : Follows cut g q p' (f a) m' S) :
    Follows cut g p p' (m >>= f) m' S :=
  .of_run (bind_ok hm) rfl hpq (.inl rfl) h

lemma Follows.imp (h : Follows cut g' p p' m m' R)
    (himp : ∀ q q' a a', q.Sheds cut q' → p.Extends cut g' q → R q a a' →
      p.Extends cut g q ∧ R' q a a') : Follows cut g p p' m m' R' := by
  unfold Follows at h ⊢
  split at h
  · obtain ⟨hsheds, hpq, hR⟩ := h
    exact ⟨hsheds, himp _ _ _ _ hsheds hpq hR⟩
  · exact h
  · exact h

lemma Follows.mono (h : Follows cut g p p' m m' R)
    (hR : ∀ q a a', R q a a' → R' q a a') : Follows cut g p p' m m' R' :=
  h.imp fun q _ a a' _ hpq hRq => ⟨hpq, hR q a a' hRq⟩

lemma Follows.ite {c : Prop} [Decidable c] (hm : c → Follows cut g p p' m m' R)
    (hn : ¬ c → Follows cut g p p' n n' R) :
    Follows cut g p p' (if c then m else n) (if c then m' else n') R := by
  split
  · next h => exact hm h
  · next h => exact hn h

lemma Follows.either {c : Prop} [Decidable c] (hm : Follows cut g p p' m m' R)
    (hn : Follows cut g p p' n n' R) :
    Follows cut g p p' (if c then m else n) (if c then m' else n') R :=
  .ite (fun _ => hm) fun _ => hn

/-! ### Reading -/

section Read

variable {id id' : Nat} (h : p.Sheds cut p') (hid : p.Stands cut id id')

include h hid

lemma follows_node_bind {f : Node → Edit β} {f' : Node → Edit β'}
    (hf : Follows cut g p p' (f (p.node id)) (f' (p.renumber cut (p.node id))) S) :
    Follows cut g p p' (node id >>= f) (node id' >>= f') S := by
  rw [← h.node_eq hid] at hf
  exact hf

lemma follows_kind_bind {f : Kind → Edit β} {f' : Kind → Edit β'}
    (hf : Follows cut g p p' (f (p.node id).kind) (f' (p.node id).kind) S) :
    Follows cut g p p' (kind id >>= f) (kind id' >>= f') S := by
  show Follows cut g p p' (f _) (f' (p'.node id').kind) S
  rw [h.node_eq hid]
  exact hf

lemma follows_name_bind {f : String → Edit β} {f' : String → Edit β'}
    (hf : Follows cut g p p' (f (p.node id).name) (f' (p.node id).name) S) :
    Follows cut g p p' (name id >>= f) (name id' >>= f') S := by
  show Follows cut g p p' (f _) (f' (p'.node id').name) S
  rw [h.node_eq hid]
  exact hf

lemma stands_parent (hpos : cut.base < id) :
    p.Stands cut (p.node id).parent (p.rank cut (p.node id).parent) := by
  obtain ⟨⟨hle, hlt⟩, -, hkeeps⟩ := h.sound.parent id hpos hid.lt
  exact ⟨⟨hle, Nat.lt_trans hlt hid.lt⟩, hkeeps, rfl⟩

variable (hall : ∀ c ∈ (p.node id).children, p.keeps cut c = true)

include hall

lemma children_eq : (p'.node id').children = (p.node id).children.map (p.rank cut) := by
  rw [h.node_eq hid]
  show ((p.node id).children.filter (p.keeps cut)).map (p.rank cut) = _
  rw [filter_eq_self.2 hall]

lemma stands_child {c : Nat} (hc : c ∈ (p.node id).children) : p.Stands cut c (p.rank cut c) :=
  ⟨h.sound.spans_child hid.spans hc, hall c hc, rfl⟩

lemma follows_children_bind {f : List Nat → Edit β} {f' : List Nat → Edit β'}
    (hf : Follows cut g p p' (f (p.node id).children)
      (f' ((p.node id).children.map (p.rank cut))) S) :
    Follows cut g p p' (children id >>= f) (children id' >>= f') S := by
  rw [← children_eq h hid hall] at hf
  exact hf

lemma follows_names_bind {f : List String → Edit β} {f' : List String → Edit β'}
    (hf : Follows cut g p p' (f (p.namesBelow id)) (f' (p.namesBelow id)) S) :
    Follows cut g p p' (names id >>= f) (names id' >>= f') S := by
  have hnames : p'.namesBelow id' = p.namesBelow id := by
    rw [namesBelow, children_eq h hid hall, map_map]
    refine map_congr_left fun c hc => ?_
    show (p'.node (p.rank cut c)).name = _
    rw [h.node_eq (stands_child h hid hall hc)]
    rfl
  show Follows cut g p p' (f _) (f' (p'.namesBelow id')) S
  rw [hnames]
  exact hf

lemma follows_child_bind {f : Nat → Edit β} {f' : Nat → Edit β'} (index : Nat)
    (hf : ∀ c, (p.node id).children[index]? = some c → p.Stands cut c (p.rank cut c) →
      Follows cut g p p' (f c) (f' (p.rank cut c)) S) :
    Follows cut g p p' (child id index >>= f) (child id' index >>= f') S := by
  have hchildren := children_eq h hid hall
  cases hfound : (p.node id).children[index]? with
  | some c =>
    have hmem := mem_of_getElem? hfound
    have hrun : child id index p = .ok c p := child_natCast_eq hfound
    have hrun' : child id' index p' = .ok (p.rank cut c) p' :=
      child_natCast_eq (by rw [hchildren, getElem?_map, hfound]; rfl)
    unfold Follows
    rw [bind_ok hrun, bind_ok hrun']
    exact hf c hfound (stands_child h hid hall hmem)
  | none =>
    have hle : (p.node id).children.length ≤ index := getElem?_eq_none_iff.1 hfound
    have herror : ∀ {q : Project} {j : Nat}, (q.node j).children.length ≤ index →
        child j index q = .error (.childRange (q.node j).kind.name index) q := by
      intro q j hle
      rw [child, node_bind]
      simp only [Int.ofNat_le.2 hle]
      rfl
    have hle' : (p'.node id').children.length ≤ index := by
      rw [hchildren, length_map]
      exact hle
    unfold Follows
    rw [bind_error (herror hle), bind_error (herror hle'), h.node_eq hid]
    exact ⟨rfl, h, .of_nodes_eq rfl rfl⟩

lemma follows_hasChild_bind {f : Bool → Edit β} {f' : Bool → Edit β'} {name : String}
    (hf : ∀ found, Follows cut g p p' (f found) (f' found) S) :
    Follows cut g p p' (hasChild id name >>= f) (hasChild id' name >>= f') S := by
  show Follows cut g p p' (names id >>= fun names => f (names.contains name))
    (names id' >>= fun names => f' (names.contains name)) S
  exact follows_names_bind h hid hall (hf _)

lemma follows_childNamed_bind {f : Nat → Edit β} {f' : Nat → Edit β'} {name : String}
    (hf : ∀ c ∈ (p.node id).children, p.Stands cut c (p.rank cut c) →
      Follows cut g p p' (f c) (f' (p.rank cut c)) S) :
    Follows cut g p p' (childNamed id name >>= f) (childNamed id' name >>= f') S := by
  unfold childNamed
  rw [bind_assoc, bind_assoc]
  refine follows_names_bind h hid hall ?_
  cases (p.namesBelow id).idxOf? name with
  | none => exact follows_throw h _
  | some index =>
    exact follows_child_bind h hid hall index fun c hc hstands =>
      hf c (mem_of_getElem? hc) hstands

omit hall in
lemma keeps_of_mem (hkind : (p.node id).kind ≠ .block) :
    ∀ c ∈ (p.node id).children, p.keeps cut c = true := by
  intro c hc
  have hkept := (h.sound.below id hid.spans).keeps h.asides hkind (p.node c).kind
    (mem_map_of_mem hc)
  rw [keeps, hkept]
  rfl

end Read

/-! ### Looking up -/

section Lookup

variable {id id' : Nat} {f : Nat → Edit β} {f' : Nat → Edit β'}

/-- The node around, on both sides. Around each node but the root there is a program. -/
lemma enclosing_eq (wanted : Kind → Bool) (hprogram : wanted .program = true)
    (h : p.Sheds cut p') {n n' : Nat} (hn : id < n) (hn' : id' < n') (hpos : 0 < id)
    (hid : p.Stands cut id id') :
    ∃ e e', p.Stands cut e e' ∧ wanted (p.node e).kind = true ∧ 0 < e ∧
      enclosing wanted n id p = .ok e p ∧ enclosing wanted n' id' p' = .ok e' p' := by
  induction id using Nat.strongRecOn generalizing id' n n' with
  | ind id ih =>
    rcases n with _ | n
    · omega
    obtain ⟨n', rfl⟩ : ∃ k, n' = k + 1 := ⟨n' - 1, by omega⟩
    have hkind : (p'.node id').kind = (p.node id).kind := by rw [h.node_eq hid]; rfl
    have hparent : (p'.node id').parent = p.rank cut (p.node id).parent := by
      rw [h.node_eq hid]
      rfl
    rw [enclosing_succ, enclosing_succ, hkind, hparent]
    cases hwanted : wanted (p.node id).kind with
    | true => exact ⟨id, id', hid, hwanted, hpos, rfl, rfl⟩
    | false =>
      have hnot : (p.node id).kind ≠ .program := fun hkind => by
        rw [hkind, hprogram] at hwanted
        cases hwanted
      have hbase : cut.base < id := by
        refine Nat.lt_of_le_of_ne hid.spans.1 fun heq => hnot ?_
        rw [← heq, h.sound.top.1, if_neg (by omega)]
      obtain ⟨⟨hle, hlt⟩, hmem, -⟩ := h.sound.parent id hbase hid.lt
      have hstands := stands_parent h hid hbase
      have hlt' : p.rank cut (p.node id).parent < id' := by
        rw [hid.rank]
        exact rank_lt_rank hstands.keeps hlt
      refine ih _ hlt (Nat.lt_of_lt_of_le hlt (Nat.le_of_lt_succ hn)) (by omega) ?_ hstands
      -- what stands directly below the root is a program
      refine Nat.pos_of_ne_zero fun hzero => hnot ?_
      have hbelow := h.sound.below _ hstands.spans
      have htop := h.sound.top.1
      rw [show cut.base = 0 by omega] at htop
      rw [hzero] at hmem hbelow
      rw [htop] at hbelow
      exact hbelow _ (mem_map_of_mem hmem)

variable (h : p.Sheds cut p') (hid : p.Stands cut id id') (hpos : cut.base < id)

include h hid hpos

lemma follows_program_bind (hf : ∀ e e', p.Stands cut e e' → (p.node e).kind = .program →
      Follows cut g p p' (f e) (f' e') S) :
    Follows cut g p p' (program id >>= f) (program id' >>= f') S := by
  obtain ⟨e, e', he, hwanted, hepos, hrun, hrun'⟩ := enclosing_eq
    (fun kind => kind == .program || kind == .project) rfl h (Nat.lt_succ_of_lt hid.lt)
    (Nat.lt_succ_of_lt (h.lt_size hid)) (Nat.zero_lt_of_lt hpos) hid
  unfold Follows
  rw [bind_ok (show program id p = _ from hrun), bind_ok (show program id' p' = _ from hrun')]
  refine hf e e' he ?_
  rcases Bool.or_eq_true_iff.1 hwanted with hkind | hkind
  · simpa using hkind
  · exact absurd (h.sound.only e he.spans (by simpa using hkind)) (Nat.ne_of_gt hepos)

lemma follows_func_bind (hf : ∀ e e', p.Stands cut e e' →
      (p.node e).kind = .func ∨ (p.node e).kind = .main ∨ (p.node e).kind = .program →
      Follows cut g p p' (f e) (f' e') S) :
    Follows cut g p p' (func id >>= f) (func id' >>= f') S := by
  obtain ⟨e, e', he, hwanted, -, hrun, hrun'⟩ := enclosing_eq
    (fun kind => kind == .func || kind == .main || kind == .program) rfl h
    (Nat.lt_succ_of_lt hid.lt) (Nat.lt_succ_of_lt (h.lt_size hid)) (Nat.zero_lt_of_lt hpos) hid
  unfold Follows
  rw [bind_ok (show func id p = _ from hrun), bind_ok (show func id' p' = _ from hrun')]
  exact hf e e' he (by simpa [or_assoc] using hwanted)

omit hid hpos in
/-- A child of a node below which stand certain parts, by its position among them. -/
lemma follows_part_bind {ks : List Kind} (hparts : p.kindsBelow id <+: ks) (index : Nat)
    (hid : p.Stands cut id id') (hkind : (p.node id).kind ≠ .block)
    (hf : ∀ c c', p.Stands cut c c' → ks[index]? = some (p.node c).kind → id < c →
      Follows cut g p p' (f c) (f' c') S) :
    Follows cut g p p' (child id index >>= f) (child id' index >>= f') S := by
  refine follows_child_bind h hid (keeps_of_mem h hid hkind) index fun c hc hstands => ?_
  refine hf c _ hstands ?_ (h.sound.child id hid.spans c (List.mem_of_getElem? hc)).1
  have hlt : index < (p.kindsBelow id).length := by
    rw [kindsBelow, List.length_map]
    exact (List.getElem?_eq_some_iff.1 hc).1
  obtain ⟨rest, rfl⟩ := hparts
  rw [List.getElem?_append_left hlt, kindsBelow, List.getElem?_map, hc]
  rfl

lemma follows_programPart_bind (index : Nat) {kind : Kind}
    (hindex : Kind.programParts[index]? = some kind)
    (hf : ∀ c c', p.Stands cut c c' → (p.node c).kind = kind → Follows cut g p p' (f c) (f' c') S) :
    Follows cut g p p' ((program id >>= fun e => child e index) >>= f)
      ((program id' >>= fun e => child e index) >>= f') S := by
  rw [bind_assoc, bind_assoc]
  refine follows_program_bind h hid hpos fun e e' he hkind => ?_
  have hparts := h.sound.below e he.spans
  rw [hkind] at hparts
  refine follows_part_bind h hparts index he (by rw [hkind]; decide) fun c c' hc hpart _ => ?_
  exact hf c c' hc (Option.some.inj (hpart.symm.trans hindex))

lemma follows_funcPart_bind (index : Nat) {kind kind' : Kind}
    (hindex : Kind.funcParts[index]? = some kind) (hindex' : Kind.programParts[index]? = some kind')
    (hf : ∀ c c', p.Stands cut c c' → (p.node c).kind = kind ∨ (p.node c).kind = kind' →
      Follows cut g p p' (f c) (f' c') S) :
    Follows cut g p p' ((func id >>= fun e => child e index) >>= f)
      ((func id' >>= fun e => child e index) >>= f') S := by
  rw [bind_assoc, bind_assoc]
  refine follows_func_bind h hid hpos fun e e' he hkind => ?_
  have hparts := h.sound.below e he.spans
  rcases hkind with hkind | hkind | hkind <;> rw [hkind] at hparts <;>
    refine follows_part_bind h hparts index he (by rw [hkind]; decide) fun c c' hc hpart _ => ?_
  iterate 2 · exact hf c c' hc (.inl (Option.some.inj (hpart.symm.trans hindex)))
  · exact hf c c' hc (.inr (Option.some.inj (hpart.symm.trans hindex')))

end Lookup

/-! ### Changing and making nodes -/

/-- What is known of a new node below another one. -/
structure Made (cut : Cut) (p : Project) (parent : Nat) (node : Node) (q : Project)
    (id id' : Nat) : Prop where
  stands : q.Stands cut id id'
  size_le : p.size ≤ id
  kind : (q.node id).kind = node.kind
  children : (q.node id).children = []
  below : q.kindsBelow parent = p.kindsBelow parent ++ [node.kind]
  grown : (q.node parent).children = (p.node parent).children ++ [id]

section Write

variable {id id' : Nat} (h : p.Sheds cut p')

include h

section

variable (hid : p.Stands cut id id')

include hid

lemma follows_update {f f' : Node → Node} (hf : Mild f (p.node id))
    (hlisting : 0 < cut.base → (f (p.node id)).listing = (p.node id).listing)
    (hrecalls : Recalls cut p (f (p.node id)))
    (hf' : f' (p.renumber cut (p.node id)) = p.renumber cut (f (p.node id))) :
    Follows cut g p p' (update id f) (update id' f') fun _ _ _ => True :=
  ⟨h.update hid hf hrecalls hf', extends_update hf hid.spans hlisting, trivial⟩

lemma follows_modest_eq {f : Node → Node} (hf : Modest f)
    (hlisting : 0 < cut.base → ∀ node, (f node).listing = node.listing) :
    Follows cut g p p' (update id f) (update id' f) fun q _ _ => q = p.update id f :=
  ⟨h.update hid (hf.mild _) (hf.recalls (h.sound.recalls hid.spans)) (hf.renumber ..),
    extends_update (hf.mild _) hid.spans fun hpos => hlisting hpos _, rfl⟩

lemma follows_modest {f : Node → Node} (hf : Modest f)
    (hlisting : ∀ node, (f node).listing = node.listing) :
    Follows cut g p p' (update id f) (update id' f) fun _ _ _ => True :=
  (follows_modest_eq h hid hf fun _ => hlisting).mono fun _ _ _ _ => trivial

lemma follows_setType (type : Datatype) :
    Follows cut g p p' (setType id type) (setType id' type) fun _ _ _ => True := by
  unfold setType setTypeNamed
  obtain ⟨stars, name⟩ := Datatype.splitStars (if type.name.isEmpty then "TYPE" else type.name)
  exact follows_modest h hid ⟨fun _ => ⟨rfl, rfl, rfl, fun h => h, fun h => h⟩, fun _ => rfl,
    fun _ => rfl, fun _ => rfl, fun _ _ _ => rfl⟩ fun _ => rfl

lemma follows_found {d d' : Nat} (hd : p.Stands cut d d') :
    Follows cut g p p' (found id d) (found id' d') fun q e e' => q.Stands cut e e' := by
  have hrecalls := h.sound.recalls hid.spans
  refine (follows_update h hid ⟨rfl, rfl, rfl, fun h => h, fun h => h⟩ (fun _ => rfl)
    ⟨hrecalls.group, ?_, hrecalls.reference⟩ ?_).bind
    fun q q' _ _ hq hpq _ => follows_pure hq (hd.extends hpq)
  · intro e he
    cases he
    exact ⟨hd.spans, hd.keeps⟩
  · rw [hd.rank]
    rfl

end

lemma follows_make {parent parent' : Nat} {node : Node} (hparent : p.Stands cut parent parent')
    (hfresh : Fresh node) (hkept : cut.drops node.kind = false)
    (hpermits : Admits cut p parent [node.kind])
    (hgrows : parent = g.above ∨ (p.node parent).kind.isGrowing = true) :
    Follows cut g p p' (make parent node) (make parent' node) (Made cut p parent node) := by
  have hsheds := h.make hparent hfresh hkept hpermits
  refine ⟨hsheds, extends_make hparent.spans (fun _ => hkept) hgrows, ⟨⟨?_, ?_⟩, ?_, ?_⟩, .refl, ?_,
    ?_, ?_, ?_⟩
  · exact Nat.le_of_lt h.sound.pos
  · show p.size < (p.make parent node).size
    rw [size_make]
    exact Nat.lt_succ_self _
  · show (p.make parent node).keeps cut p.size = true
    rw [keeps_make_new hparent.lt, hkept]
    rfl
  · show p'.size = (p.make parent node).rank cut p.size
    rw [h.size, rank_make_of_le hparent.lt .refl]
  · show ((p.make parent node).node p.size).kind = _
    rw [node_make_new node hparent.lt]
  · show ((p.make parent node).node p.size).children = _
    rw [node_make_new node hparent.lt, hfresh.children]
  · exact kindsBelow_make_above h.sound hparent.spans
  · show ((p.make parent node).node parent).children = _
    rw [node_make_parent hparent.lt]
    rfl

end Write

/-! ### Declarations -/

section Declare

variable {id id' : Nat} (h : p.Sheds cut p') (hid : p.Stands cut id id') (hpos : cut.base < id)

include h hid

lemma follows_fieldName :
    Follows cut g p p' (fieldName? id) (fieldName? id') fun _ a a' => a = a' := by
  refine follows_node_bind h hid (.ite (fun hkind => ?_) fun _ => follows_pure h rfl)
  have hkept := keeps_of_mem h hid fun hblock => by rw [hblock] at hkind; cases hkind
  refine follows_child_bind h hid hkept 0 fun c _ hc => ?_
  refine follows_kind_bind h hc (.ite (fun hstring => ?_) fun _ => follows_pure h rfl)
  refine follows_childNamed_bind h hc (keeps_of_mem h hc ?_) fun _ _ _ => follows_pure h rfl
  intro hblock
  rw [hblock] at hstring
  cases hstring

include hpos

lemma follows_fieldDeclaration :
    Follows cut g p p' (fieldDeclaration id) (fieldDeclaration id') fun q d d' =>
      q.Stands cut d d' := by
  refine (follows_fieldName h hid).bind fun q q' field? _ hq hpq heq => ?_
  subst heq
  have hid := hid.extends hpq
  cases field? with
  | none => exact follows_pure hq hid
  | some field =>
    refine follows_name_bind hq hid (follows_programPart_bind hq hid hpos 3 rfl
      fun c c' hc hkind => ?_)
    have hkept := keeps_of_mem hq hc (by rw [hkind]; decide)
    refine follows_hasChild_bind hq hc hkept fun found => ?_
    refine .either (follows_pure hq hid) ?_
    refine follows_childNamed_bind hq hc hkept fun s hs hstands => ?_
    have hstruct : (q.node s).kind = .struct := by
      have hbelow := hq.sound.below c hc.spans
      rw [hkind] at hbelow
      exact hbelow _ (mem_map_of_mem hs)
    have hkept := keeps_of_mem hq hstands (by rw [hstruct]; decide)
    refine follows_hasChild_bind hq hstands hkept fun found => ?_
    refine .either (follows_pure hq hid) ?_
    exact follows_childNamed_bind hq hstands hkept fun d _ hd => follows_found hq hid hd

lemma follows_variableDeclaration :
    Follows cut g p p' (variableDeclaration id) (variableDeclaration id')
      fun q d d' => q.Stands cut d d' := by
  refine follows_name_bind h hid (follows_funcPart_bind h hid hpos 0 rfl rfl fun c c' hc
    hkind => ?_)
  have hkept := keeps_of_mem h hc (by rcases hkind with hkind | hkind <;> rw [hkind] <;> decide)
  refine follows_hasChild_bind h hc hkept fun found => .either ?_ ?_
  · exact follows_childNamed_bind h hc hkept fun d _ hd => follows_found h hid hd
  · refine follows_funcPart_bind h hid hpos 2 rfl rfl fun c c' hc hkind => ?_
    have hkept := keeps_of_mem h hc (by rcases hkind with hkind | hkind <;> rw [hkind] <;> decide)
    refine follows_hasChild_bind h hc hkept fun found => .either ?_ ?_
    · exact follows_childNamed_bind h hc hkept fun d _ hd => follows_found h hid hd
    · exact follows_pure h hid

lemma follows_declaration : Follows cut g p p' (declaration id) (declaration id') fun q d d' =>
      q.Stands cut d d' := by
  refine follows_node_bind h hid ?_
  have hrenumber : (p.renumber cut (p.node id)).declare? =
      (p.node id).declare?.map (p.rank cut) := rfl
  rw [hrenumber]
  cases hdeclare : (p.node id).declare? with
  | some d =>
    obtain ⟨hlt, hkeeps⟩ := h.sound.declare id hid.spans d hdeclare
    exact follows_pure h ⟨hlt, hkeeps, rfl⟩
  | none =>
    refine .either (follows_pure h hid) ?_
    refine .either (follows_fieldDeclaration h hid hpos) ?_
    refine follows_kind_bind h (stands_parent h hid hpos) ?_
    exact .either (follows_pure h hid) <| follows_variableDeclaration h hid hpos

lemma follows_typeOf : Follows cut g p p' (typeOf id) (typeOf id') fun _ a a' => a = a' := by
  refine follows_node_bind h hid ?_
  have hrenumber : (p.renumber cut (p.node id)).type = (p.node id).type := rfl
  rw [hrenumber]
  split
  · refine (follows_declaration h hid hpos).bind fun q q' d d' hq _ hd => ?_
    exact follows_node_bind hq hd (follows_pure hq rfl)
  · exact follows_pure h rfl

end Declare

/-! ### Declaring -/

section Grow

variable {parent parent' : Nat} (h : p.Sheds cut p')

include h

lemma drops_eq_false {kind : Kind} (hkind : kind.isAside = false) : cut.drops kind = false :=
  Bool.eq_false_iff.2 fun hdrop => by rw [h.asides kind hdrop] at hkind; cases hkind

section

variable (hparent : p.Stands cut parent parent')

include hparent

lemma follows_makeListed {node : Node} (hfresh : Fresh node) (haside : node.kind.isAside = false)
    (hgrows : (p.node parent).kind.isGrowing = true)
    (hpermits : (p.node parent).kind.Permits cut.drops [node.kind]) :
    Follows cut g p p' (make parent node) (make parent' node) (Made cut p parent node) :=
  follows_make h hparent hfresh (drops_eq_false h haside)
    ((Kind.permits_append hgrows).2 ⟨h.sound.below parent hparent.spans, hpermits⟩) (.inr hgrows)

lemma follows_makeTyped {name value : String} {type : Datatype}
    (hkind : (p.node parent).kind = .declares ∨ (p.node parent).kind = .includes) :
    Follows cut g p p' (makeTyped parent name value type)
      (makeTyped parent' name value type) fun _ _ _ => True := by
  have hkept := drops_eq_false h (show Kind.var.isAside = false from rfl)
  refine (follows_makeListed h hparent (fresh_mk (by decide)) rfl ?_ ?_).bind
    fun q q' var var' hq _ hvar => follows_setType hq hvar.stands type
  · rcases hkind with hkind | hkind <;> rw [hkind] <;> rfl
  · rcases hkind with hkind | hkind <;> rw [hkind] <;> exact forall_mem_singleton.2 hkept

lemma follows_makeField {node : Node} (hkind : (p.node parent).kind = .struct) (hfresh : Fresh node)
    (haside : node.kind.isAside = false) :
    Follows cut g p p' (make parent node) (make parent' node) fun _ _ _ => True := by
  have hkept := drops_eq_false h haside
  refine (follows_makeListed h hparent hfresh haside ?_ ?_).mono fun _ _ _ _ => trivial
  · rw [hkind]
    rfl
  · rw [hkind]
    exact forall_mem_singleton.2 hkept

lemma follows_unlessNamed {name : String} {γ γ' : Type} {m : Edit γ} {m' : Edit γ'}
    (hkind : (p.node parent).kind ≠ .block)
    (k : Unit → Edit β) (k' : Unit → Edit β')
    (hm : Follows cut g p p' m m' fun _ _ _ => True)
    (hk : ∀ q q', q.Sheds cut q' → p.Extends cut g q → Follows cut g q q' (k ()) (k' ()) S) :
    Follows cut g p p'
      (hasChild parent name >>= fun found => if !found then m >>= fun _ => k () else k ())
      (hasChild parent' name >>= fun found => if !found then m' >>= fun _ => k' () else k' ()) S :=
  follows_hasChild_bind h hparent (keeps_of_mem h hparent hkind) fun _ =>
    Follows.either (hm.bind fun q q' _ _ hq hpq _ => hk q q' hq hpq) <| hk p p' h .refl

end

end Grow

section Declaring

variable {id id' : Nat} (h : p.Sheds cut p') (hid : p.Stands cut id id') (hpos : cut.base < id)

include h hid hpos

lemma follows_declareField (field : String) :
    Follows cut g p p' (declareField id field) (declareField id' field) fun _ _ _ => True := by
  refine follows_node_bind h hid (follows_programPart_bind h hid hpos 3 rfl fun c c' hc hkind => ?_)
  refine follows_kind_bind h hc (.either (follows_throw h _) ?_)
  extract_lets enter enter'
  have henter : ∀ q q' s s', q.Sheds cut q' → p.Extends cut g q →
      q.Stands cut s s' → (q.node s).kind = .struct →
      Follows cut g q q' (enter s) (enter' s') fun _ _ _ => True := by
    intro q q' s s' hq hpq hs hstruct
    have hne : (q.node s).kind ≠ .block := by rw [hstruct]; decide
    refine follows_hasChild_bind hq hs (keeps_of_mem hq hs hne) fun found => ?_
    refine .either (follows_pure hq trivial) ?_
    refine follows_funcPart_bind hq (hid.extends hpq) hpos 0 rfl rfl fun d d' hd hdeclares => ?_
    extract_lets last counted last' counted'
    have hlast : ∀ r r', r.Sheds cut r' → q.Extends cut g r →
        Follows cut g r r' (last ()) (last' ()) fun _ _ _ => True := by
      intro r r' hr hqr
      have hstruct : (r.node s).kind = .struct := (hqr.kind s hs.lt).trans hstruct
      refine .bind (follows_makeField hr (hs.extends hqr) hstruct (fresh_mk (by decide)) rfl)
        fun _ _ _ _ ht _ _ => follows_pure ht trivial
    -- the record itself is declared among the variables
    have hrecord : ∀ r r' type, r.Sheds cut r' → q.Extends cut g r →
        Follows cut g r r'
          (hasChild d (p.node id).name >>= fun found => if !found then
            makeTyped d (p.node id).name field type >>= last else last ())
          (hasChild d' (p.node id).name >>= fun found => if !found then
            makeTyped d' (p.node id).name field type >>= last' else last' ())
          fun _ _ _ => True := by
      intro r r' type hr hqr
      have hdeclares : (r.node d).kind = .declares ∨ (r.node d).kind = .includes := by
        rwa [hqr.kind d hd.lt]
      refine follows_unlessNamed hr (hd.extends hqr) ?_ last last'
        (follows_makeTyped hr (hd.extends hqr) hdeclares)
        fun t t' ht hrt => hlast t t' ht (hqr.trans hrt (.inl rfl))
      rcases hdeclares with hdeclares | hdeclares <;> rw [hdeclares] <;> decide
    refine .either ?_ <| hrecord q q' .struct hq .refl
    refine follows_unlessNamed hq hs hne counted counted' ?_ fun r r' hr hqr =>
      hrecord r r' .structs hr hqr
    exact follows_makeField hq hs hstruct (fresh_mk (by decide)) rfl
  have hkept := keeps_of_mem h hc (by rw [hkind]; decide)
  refine follows_hasChild_bind h hc hkept fun found => .either ?_ ?_
  · refine follows_childNamed_bind h hc hkept fun s hs hstands => ?_
    have hbelow := h.sound.below c hc.spans
    rw [hkind] at hbelow
    exact henter p p' s _ h .refl hstands (hbelow _ (mem_map_of_mem hs))
  · refine (follows_makeListed h hc (fresh_mk (by decide)) rfl ?_ ?_).bind
      fun q q' s s' hq hpq hs => henter q q' s s' hq hpq hs.stands hs.kind
    · rw [hkind]
      rfl
    · rw [hkind]
      exact forall_mem_singleton.2 rfl

lemma follows_declareVariable : Follows cut g p p' (declareVariable id) (declareVariable id')
      fun _ _ _ => True := by
  refine follows_name_bind h hid (follows_funcPart_bind h hid hpos 0 rfl rfl fun c c' hc
    hkind => ?_)
  have hkept := keeps_of_mem h hc (by rcases hkind with hkind | hkind <;> rw [hkind] <;> decide)
  refine follows_hasChild_bind h hc hkept fun found => .either ?_ ?_
  · refine follows_childNamed_bind h hc hkept fun d _ hd => ?_
    refine (follows_typeOf h hid hpos).bind fun q q' type _ hq hpq heq => ?_
    subst heq
    have hd := hd.extends hpq
    refine (follows_setType hq hd type).bind fun r r' _ _ hr hqr _ => ?_
    refine follows_node_bind hr ((hid.extends hpq).extends hqr) ?_
    have hd := hd.extends hqr
    exact follows_modest hr hd ⟨fun _ => ⟨rfl, rfl, rfl, fun h => h, fun h => h⟩, fun _ => rfl,
      fun _ => rfl, fun _ => rfl, fun _ _ _ => rfl⟩ fun _ => rfl
  · refine follows_node_bind h hid ?_
    have hdrop := drops_eq_false h (show Kind.var.isAside = false from rfl)
    refine (follows_makeListed h hc (fresh_mk (by decide)) rfl ?_ ?_).bind
      fun q q' d d' hq hpq hd => ?_
    · rcases hkind with hkind | hkind <;> rw [hkind] <;> rfl
    · rcases hkind with hkind | hkind <;> rw [hkind] <;> exact forall_mem_singleton.2 hdrop
    · refine (follows_typeOf hq (hid.extends hpq) hpos).bind fun r r' type _ hr hqr heq => ?_
      subst heq
      exact follows_setType hr (hd.stands.extends hqr) type

lemma follows_declare : Follows cut g p p' (declare id) (declare id') fun _ _ _ => True := by
  refine (follows_declaration h hid hpos).bind fun q q' d d' hq hpq hd => ?_
  have hid := hid.extends hpq
  have hsame : (d != id) = (d' != id') := by
    rw [bne, bne, hd.beq_eq hid]
  rw [hsame]
  refine .either (follows_pure hq trivial) <| follows_node_bind hq hid ?_
  refine .ite (fun hkind => ?_) fun _ => .either
    (follows_declareField hq hid hpos _) <| follows_declareVariable hq hid hpos
  have hkept := keeps_of_mem hq hid fun hblock => by rw [hblock] at hkind; cases hkind
  refine follows_child_bind hq hid hkept 0 fun c _ hc => follows_kind_bind hq hc ?_
  refine .either (follows_pure hq trivial) ?_
  show Follows cut g q q' (declareField id (q.node c).value)
    (declareField id' (q'.node (q.rank cut c)).value) fun _ _ _ => True
  rw [hq.node_eq hc]
  exact follows_declareField hq hid hpos _

end Declaring

end ArmaGen.Edit
