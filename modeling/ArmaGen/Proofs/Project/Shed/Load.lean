import ArmaGen.Proofs.Project.Load
import ArmaGen.Proofs.Project.Shed.Edit
import ArmaGen.Proofs.Syntax.Sound.Program

/-!
# Programs without some nodes

Building syntax without the nodes of some kinds builds the project without them (`follows_install`).
What is looked up on the way is none of the asides. Names that nothing assigns are found from the
nodes that are kept (`follows_findUnassigned`).
-/

namespace ArmaGen

open List

open Syntax

/-! ### Nodes in order -/

namespace Project

variable {cut : Cut} {p p' : Project}

variable {id : Nat}

lemma Sheds.children_eq_nil (h : p.Sheds cut p') (hid : p.Spans cut id)
    (hdrop : p.keeps cut id = false) : (p.node id).children = [] := by
  refine eq_nil_iff_forall_not_mem.2 fun c hc => ?_
  obtain ⟨hlt, hcsize, hparent⟩ := h.sound.child id hid c hc
  have hkept := (h.sound.parent c (Nat.lt_of_le_of_lt hid.1 hlt) hcsize).2.2
  rw [hparent, hdrop] at hkept
  cases hkept

/-- The addresses of those nodes among some that are kept. -/
def kept (cut : Cut) (p : Project) (ids : List Nat) : List Nat :=
  (ids.filter (p.keeps cut)).map (p.rank cut)

lemma kept_append (xs ys : List Nat) : p.kept cut (xs ++ ys) = p.kept cut xs ++ p.kept cut ys := by
  rw [kept, filter_append, map_append]
  rfl

lemma kept_cons_of_keeps (h : p.keeps cut id = true) (ids : List Nat) :
    p.kept cut (id :: ids) = p.rank cut id :: p.kept cut ids := by
  rw [kept, filter_cons_of_pos h]
  rfl

lemma kept_cons_of_drops (h : p.keeps cut id = false) (ids : List Nat) :
    p.kept cut (id :: ids) = p.kept cut ids := by
  rw [kept, filter_cons_of_neg (by rw [h]; exact Bool.false_ne_true)]
  rfl

lemma flatMap_kept {visit visit' : Nat → List Nat} {ids : List Nat}
    (hkeeps : ∀ id ∈ ids, p.keeps cut id = true → visit' (p.rank cut id) = p.kept cut (visit id))
    (hdrop : ∀ id ∈ ids, p.keeps cut id = false → p.kept cut (visit id) = []) :
    (p.kept cut ids).flatMap visit' = p.kept cut (ids.flatMap visit) := by
  induction ids with
  | nil => rfl
  | cons id ids ih =>
    have ih := ih (fun i hi => hkeeps i (.tail _ hi)) fun i hi => hdrop i (.tail _ hi)
    rw [flatMap_cons, kept_append]
    cases hid : p.keeps cut id with
    | true =>
      rw [kept_cons_of_keeps hid, flatMap_cons, ih, hkeeps id (.head _) hid]
    | false =>
      rw [kept_cons_of_drops hid, ih, hdrop id (.head _) hid]
      rfl

variable {id id' n n' : Nat} {backwards : Bool}

lemma kept_reverse (ids : List Nat) : p.kept cut ids.reverse = (p.kept cut ids).reverse := by
  rw [kept, filter_reverse, map_reverse]
  rfl

section

variable (h : p.Sheds cut p') (hid : p.Stands cut id id')

include h hid

lemma Sheds.childrenIn_eq :
    p'.childrenIn backwards id' = p.kept cut (p.childrenIn backwards id) := by
  have hchildren : (p'.node id').children = p.kept cut (p.node id).children := by
    rw [h.node_eq hid]
    rfl
  rw [childrenIn, childrenIn, hchildren]
  split
  · exact (kept_reverse _).symm
  · rfl

lemma Sheds.postorderSteps_eq (hn : p.size ≤ n + id) (hn' : p'.size ≤ n' + id') :
    p'.postorderSteps backwards n' id' = p.kept cut (p.postorderSteps backwards n id) := by
  induction n generalizing id id' n' with
  | zero => exact absurd hid.lt (by omega)
  | succ n ih =>
    obtain ⟨n', rfl⟩ : ∃ k, n' = k + 1 := ⟨n' - 1, by have := h.lt_size hid; omega⟩
    rw [postorderSteps, postorderSteps, kept_append, kept_cons_of_keeps hid.keeps, ← hid.rank,
      h.childrenIn_eq hid, flatMap_kept]
    · rfl
    · intro c hc hkeeps
      obtain ⟨hlt, hcsize, -⟩ := h.sound.child id hid.spans c (mem_childrenIn.1 hc)
      have hrank : id' < p.rank cut c := hid.rank ▸ rank_lt_rank hid.keeps hlt
      exact ih ⟨⟨Nat.le_trans hid.spans.1 (Nat.le_of_lt hlt), hcsize⟩, hkeeps, rfl⟩ (by omega)
        (by omega)
    · intro c hc hdrop
      have hspans := h.sound.spans_child hid.spans (mem_childrenIn.1 hc)
      cases n with
      | zero => rfl
      | succ n =>
        have hnil : p.childrenIn backwards c = [] := by
          simp [childrenIn, h.children_eq_nil hspans hdrop]
        rw [postorderSteps, kept_append, kept_cons_of_drops hdrop, hnil]
        rfl

end

lemma Sound.lt_of_below (h : p.Sound cut) (hid : p.Spans cut id) {j : Nat}
    (hbelow : p.Below id j) : id ≤ j ∧ j < p.size :=
  hbelow.lt (fun i hle hi c hc =>
    have hchild := h.child i ⟨Nat.le_trans hid.1 hle, hi⟩ c hc
    ⟨hchild.1, hchild.2.1⟩) hid.2

end Project

/-! ### Functions -/

namespace Edit

open Project

variable {cut : Cut} {opened : Bool} {g : Growth} {p p' q q' : Project}
  {parent parent' id id' : Nat}

variable {ids : List Nat} {head : Head} {ks ks' : List Kind} {items : List Syntax}

lemma follows_declareAll (hids : ∀ id ∈ ids, cut.base < id ∧ p.Stands cut id (p.rank cut id))
    (hq : q.Sheds cut q') (hpq : p.Extends cut g q) :
    Follows cut g q q' (declareAll ids) (declareAll (ids.map (p.rank cut))) fun _ _ _ => True := by
  induction ids generalizing q q' with
  | nil => exact follows_pure hq trivial
  | cons id ids ih =>
    obtain ⟨hpos, hid⟩ := hids id (.head _)
    refine (follows_declare hq (hid.extends hpq) hpos).bind fun r r' _ _ hr hqr _ => ?_
    exact ih (fun i hi => hids i (.tail _ hi)) hr (hpq.trans hqr (.inl rfl))

lemma follows_declareResults_bind {β β' : Type} {f : Unit → Edit β} {f' : Unit → Edit β'}
    {S : Project → β → β' → Prop} (h : p.Sheds cut p') (hid : p.Stands cut id id')
    (hkind : (p.node id).kind = .func)
    (hf : ∀ q q', q.Sheds cut q' → p.Extends cut ⟨g.opened, p.size⟩ q →
      Follows cut g q q' (f ()) (f' ()) S) :
    Follows cut g p p' (child id 1 >>= fun c => children c >>= fun ids => declareAll ids >>= f)
      (child id' 1 >>= fun c => children c >>= fun ids => declareAll ids >>= f') S := by
  have hparts := h.sound.below id hid.spans
  rw [hkind] at hparts
  refine follows_part_bind h hparts 1 hid (by rw [hkind]; decide) fun c c' hc hreturns _ => ?_
  have hkept := keeps_of_mem h hc (by rw [← Option.some.inj hreturns]; decide)
  refine follows_children_bind h hc hkept ?_
  refine .bind_of (follows_declareAll ?_ h .refl)
    (fun q hpq => hpq.elsewhere .refl)
    fun q q' _ _ hq hpq _ => hf q q' hq hpq
  intro d hd
  obtain ⟨hcd, -⟩ := h.sound.child c hc.spans d hd
  exact ⟨Nat.lt_of_le_of_lt hc.spans.1 hcd, stands_child h hc hkept hd⟩

lemma follows_completeFunction (h : p.Sheds cut p') (hid : p.Stands cut id id')
    (hpos : cut.base < id) (hkind : (p.node id).kind = .func) :
    Follows cut g p p' (completeFunction id) (completeFunction id') fun _ _ _ => True := by
  refine follows_declareResults_bind h hid hkind fun q q' hq hpq => ?_
  have hid := hid.extends hpq
  refine follows_programPart_bind hq hid hpos 4 rfl fun c c' hc hheaders =>
    follows_name_bind hq hid ?_
  have hdrop := drops_eq_false hq (show Kind.header.isAside = false from rfl)
  refine .bind (follows_makeListed hq hc (fresh_mk (by decide)) rfl ?_ ?_)
    fun r r' _ _ hr _ _ => follows_pure hr trivial
  · rw [hheaders]
    rfl
  · rw [hheaders]
    exact forall_mem_singleton.2 hdrop

lemma follows_makeAnonymous (h : p.Sheds cut p') (hparent : p.Stands cut parent parent')
    (hpos : cut.base < parent) (hkind : head.kind = .func) :
    Follows cut g p p' (makeAnonymous parent head) (makeAnonymous parent' head)
      fun q id id' => q.Stands cut id id' ∧ p.size ≤ id ∧ (q.node id).kind = .func ∧
        (q.node id).children = [] ∧ (q.node (q.node id).parent).kind = .funcs := by
  refine follows_programPart_bind h hparent hpos 1 rfl fun c c' hc hfuncs => ?_
  have hdrop := drops_eq_false h (show Kind.func.isAside = false from rfl)
  refine follows_names_bind h hc (keeps_of_mem h hc (by rw [hfuncs]; decide)) ?_
  refine .imp (follows_makeListed h hc (fresh_mk ?_) ?_ ?_ ?_) fun q q' j j' hq hpq hj => ⟨hpq, ?_⟩
  · show head.kind ≠ .project
    rw [hkind]
    decide
  · show head.kind.isAside = false
    rw [hkind]
    rfl
  · rw [hfuncs]
    rfl
  · rw [hfuncs]
    refine forall_mem_singleton.2 ?_
    show cut.drops head.kind = false
    rw [hkind, hdrop]
  · have hmem : j ∈ (q.node c).children := by
      rw [hj.grown]
      exact mem_append_right _ (mem_singleton_self j)
    obtain ⟨-, -, hparent⟩ := hq.sound.child c (hc.extends hpq).spans j hmem
    refine ⟨hj.stands, hj.size_le, hj.kind.trans hkind, hj.children, ?_⟩
    rw [hparent, hpq.kind c hc.lt, hfuncs]

/-- Declares those of some nodes that are captured; asides are not. -/
lemma follows_captureFrom (hids : ∀ id ∈ ids, cut.base < id ∧ id < p.size) (hq : q.Sheds cut q')
    (hpq : p.Extends cut g q) (hparent : q.Stands cut parent parent')
    (hbase : cut.base < parent) :
    Follows cut g q q' (captureFrom parent ids)
      (captureFrom parent' (p.kept cut ids)) fun _ _ _ => True := by
  induction ids generalizing q q' with
  | nil => exact follows_pure hq trivial
  | cons id ids ih =>
    obtain ⟨hpos, hlt⟩ := hids id (.head _)
    have ih : ∀ r r', r.Sheds cut r' → q.Extends cut g r →
        Follows cut g r r' (captureFrom parent ids)
          (captureFrom parent' (p.kept cut ids)) fun _ _ _ => True := fun r r' hr hqr =>
      ih (fun i hi => hids i (.tail _ hi)) hr (hpq.trans hqr (.inl rfl))
        (hparent.extends hqr)
    cases hkeeps : p.keeps cut id with
    | false =>
      rw [kept_cons_of_drops hkeeps]
      have haside : captures (q.node id).kind = false := by
        rw [keeps, Bool.not_eq_false'] at hkeeps
        have haside := hq.asides _ hkeeps
        rw [← hpq.kind id hlt] at haside
        cases hkind : (q.node id).kind <;> rw [hkind] at haside <;> first | rfl | cases haside
      have hrun : captureFrom parent (id :: ids) q = captureFrom parent ids q := by
        show (if captures (q.node id).kind then _ else _ : Edit Unit) q = _
        rw [haside]
        rfl
      have hrest := ih q q' hq .refl
      unfold Follows at hrest ⊢
      rwa [hrun]
    | true =>
      rw [kept_cons_of_keeps hkeeps]
      have hid : q.Stands cut id (p.rank cut id) :=
        Stands.extends ⟨⟨Nat.le_of_lt hpos, hlt⟩, hkeeps, rfl⟩ hpq
      rw [captureFrom, captureFrom]
      extract_lets next next'
      have hnext : ∀ r r', r.Sheds cut r' → q.Extends cut g r →
          Follows cut g r r' (next ()) (next' ()) fun _ _ _ => True := ih
      refine follows_kind_bind hq hid (.either ?_ <| hnext q q' hq .refl)
      refine follows_funcPart_bind hq hparent hbase 0 rfl rfl fun c c' hc hkind => ?_
      refine follows_names_bind hq hc (keeps_of_mem hq hc ?_) ?_
      · rcases hkind with hkind | hkind <;> rw [hkind] <;> decide
      refine follows_funcPart_bind hq hparent hbase 2 rfl rfl fun d d' hd hkind => ?_
      refine follows_names_bind hq hd (keeps_of_mem hq hd ?_) ?_
      · rcases hkind with hkind | hkind <;> rw [hkind] <;> decide
      refine follows_name_bind hq hid (.either ?_ <| hnext q q' hq .refl)
      exact (follows_declare hq hid hpos).bind fun r r' _ _ hr hqr _ => hnext r r' hr hqr

/-- Nodes of some kinds have been made below a node, unless it grows anyway. Functions go
elsewhere. -/
def Gains (parent : Nat) (ks : List Kind) (p q : Project) : Prop :=
  (p.node parent).kind.isGrowing = false →
    q.kindsBelow parent = p.kindsBelow parent ++ ks.filter (· != .func)

lemma gains_nil (hp : p.Sound cut) (hpq : p.Extends cut g q)
    (hparent : p.Spans cut parent) (hne : parent ≠ g.above) : Gains parent [] p q := by
  intro hgrows
  rw [hpq.kindsBelow_eq hp hparent hne hgrows]
  exact (append_nil _).symm

lemma Gains.trans {r : Project} (h : Gains parent ks p q)
    (hkind : (q.node parent).kind = (p.node parent).kind) (h' : Gains parent ks' q r) :
    Gains parent (ks ++ ks') p r := by
  intro hgrows
  rw [h' (by rwa [hkind]), h hgrows, filter_append, append_assoc]

lemma Gains.permits (h : Gains parent ks p q) (hpq : p.Extends cut g q)
    (hq : q.Sound cut) (hparent : p.Spans cut parent)
    (hpermits : Admits cut p parent (ks ++ ks')) :
    Admits cut q parent ks' := by
  unfold Admits
  cases hgrows : (p.node parent).kind.isGrowing with
  | true =>
    have hbelow := hq.below parent ⟨hparent.1, Nat.lt_of_lt_of_le hparent.2 hpq.size_le⟩
    have hrest := ((Kind.permits_append hgrows).1 hpermits).2
    rw [hpq.kind parent hparent.2] at hbelow ⊢
    exact (Kind.permits_append hgrows).2 ⟨hbelow, ((Kind.permits_append hgrows).1 hrest).2⟩
  | false =>
    rw [hpq.kind parent hparent.2, h hgrows, append_assoc]
    exact hpermits.filter

section

variable (h : p.Sheds cut p')

include h

lemma follows_completeAnonymous (hparent : p.Stands cut parent parent')
    (hpos : cut.base < parent) (hid : p.Stands cut id id') (hkind : (p.node id).kind = .func)
    (hkept : ∀ j, id ≤ j → j < p.size → p.keeps cut j = true)
    (hpermits : Admits cut p parent [.lambda]) :
    Follows cut ⟨opened, parent⟩ p p' (completeAnonymous parent id) (completeAnonymous parent' id')
      fun q _ _ => Gains parent [.lambda] p q := by
  have hparts := h.sound.below id hid.spans
  rw [hkind] at hparts
  have hbelow : ∀ c, id < c → c < p.size → ∀ d ∈ (p.node c).children, p.keeps cut d = true := by
    intro c hc hlt d hd
    obtain ⟨hcd, hdsize, -⟩ := h.sound.child c ⟨Nat.le_trans hid.spans.1 (Nat.le_of_lt hc), hlt⟩ d
      hd
    exact hkept d (Nat.le_of_lt (Nat.lt_trans hc hcd)) hdsize
  refine follows_part_bind h hparts 3 hid (by rw [hkind]; decide) fun b b' hb _ hidb => ?_
  refine follows_child_bind h hb (hbelow b hidb hb.lt) 0 fun a ha hstands => ?_
  have hba := (h.sound.child b hb.spans a (mem_of_getElem? ha)).1
  have hida := Nat.lt_trans hidb hba
  refine follows_child_bind h hstands (hbelow a hida hstands.lt) 1 fun e he hestands => ?_
  have hae := (h.sound.child a hstands.spans e (mem_of_getElem? he)).1
  have hnodes : p'.preorder false (p.rank cut e) = p.kept cut (p.preorder false e) := by
    rw [preorder, preorder, preorderSteps_eq_reverse, preorderSteps_eq_reverse, kept_reverse]
    exact congrArg reverse
      (h.postorderSteps_eq hestands (by unfold size; omega) (by unfold size; omega))
  show Follows cut ⟨opened, parent⟩ p p' (captureFrom parent (p.preorder false e) >>= _)
    (captureFrom parent' (p'.preorder false (p.rank cut e)) >>= _) _
  rw [hnodes]
  have hbase := hid.spans.1
  refine .bind_of (follows_captureFrom ?_ h .refl hparent hpos)
    (fun q hpq => hpq.elsewhere .refl)
    fun q q' _ _ hq hpq _ => ?_
  · intro j hj
    obtain ⟨hle, hlt⟩ := h.sound.lt_of_below hestands.spans (below_of_mem_preorderSteps hj)
    exact ⟨by omega, hlt⟩
  have hid' := hid.extends hpq
  refine follows_declareResults_bind hq hid' ((hpq.kind id hid.lt).trans hkind)
    fun r r' hr hqr => follows_name_bind hr (hid'.extends hqr) ?_
  have hparent' := (hparent.extends hpq).extends hqr
  have hpr := hpq.trans hqr (.inr hpq.size_le)
  have hnone : Gains parent [] p r := gains_nil h.sound hpr hparent.spans (Nat.ne_of_lt hparent.lt)
  have hdrop := drops_eq_false h (show Kind.lambda.isAside = false from rfl)
  refine .bind (follows_make hr hparent' (fresh_mk (by decide)) hdrop
    (hnone.permits hpr hr.sound hparent.spans hpermits) (.inl rfl)) fun s s' j j' hs hrs hj => ?_
  have hid := (hid'.extends hqr).extends hrs
  have hrecalls := hs.sound.recalls hj.stands.spans
  refine .imp (follows_update hs hj.stands ⟨rfl, rfl, rfl, fun h => h, fun h => h⟩ (fun _ => rfl)
    ⟨hrecalls.group, hrecalls.declare, ?_⟩ ?_)
    fun t t' _ _ _ hst _ =>
      ⟨hst.elsewhere .refl, ?_⟩
  · intro d hd
    cases hd
    exact ⟨hid.spans, hid.keeps⟩
  · rw [hid.rank]
    rfl
  · have hparent'' := hparent'.extends hrs
    have hnext : Gains parent [.lambda] r s := fun _ => hj.below
    have hlast : Gains parent [] s t :=
      gains_nil hs.sound hst hparent''.spans (Nat.ne_of_lt hparent''.lt)
    exact hnone.trans (hpr.kind parent hparent.lt) (hnext.trans (hrs.kind parent hparent'.lt) hlast)

/-! ### Syntax -/

lemma follows_fill {f f' : Nat → Edit Unit} (hparent : p.Stands cut parent parent')
    (hproject : head.kind ≠ .project) (hkept : cut.drops head.kind = false)
    (hpermits : Admits cut p parent [head.kind])
    (hfunc : head.kind = .func → (p.node parent).kind.isGrowing = true)
    (hf : ∀ q q' id id', q.Sheds cut q' → q.Stands cut id id' → cut.base < id →
      (q.node id).kind = head.kind → q.kindsBelow id = [] →
      Follows cut ⟨opened, id⟩ q q' (f id) (f' id') fun _ _ _ => True) :
    Follows cut ⟨opened, parent⟩ p p' (make parent (.ofHead head) >>= f)
      (make parent' (.ofHead head) >>= f') fun q _ _ => Gains parent [head.kind] p q := by
  refine .bind_new (follows_make h hparent (fresh_mk hproject) hkept hpermits (.inl rfl))
    (fun _ hpq => hpq) fun q q' id id' _ _ hq hpq hid => ⟨id, .inr hid.size_le, ?_⟩
  have hlt := Nat.lt_of_lt_of_le hparent.lt hid.size_le
  refine (hf q q' id id' hq hid.stands (Nat.lt_of_le_of_lt hparent.spans.1 hlt) hid.kind
    (by rw [kindsBelow, hid.children]; rfl)).imp fun r r' _ _ _ hqr _ => ⟨hqr, ?_⟩
  have hmade : Gains parent [head.kind] p q := by
    intro hgrows
    have hkind : head.kind ≠ .func := fun hkind => by
      rw [hfunc hkind] at hgrows
      cases hgrows
    rw [filter_cons_of_pos (by simpa using hkind)]
    exact hid.below
  exact hmade.trans (hpq.kind parent hparent.lt)
    (gains_nil hq.sound hqr (hparent.extends hpq).spans (Nat.ne_of_lt hlt))

lemma kinds_of_isOf (hitems : ∀ item ∈ items, item.isOf Kind.isAside = false) :
    ∀ kind ∈ kinds items, cut.drops kind = false := by
  intro kind hkind
  obtain ⟨item, hitem, heq⟩ := mem_filterMap.1 hkind
  cases item with
  | declare => cases heq
  | node head below =>
    cases heq
    exact drops_eq_false h (hitems _ hitem)

lemma permits_kinds (hneat : (Syntax.node head items).Neat) (hlambda : head.kind ≠ .lambda) :
    head.kind.Permits cut.drops (Syntax.kinds items) := by
  rcases hneat.1 with ⟨-, rfl⟩ | ⟨hordinary, hitems⟩ | ⟨hkind, hparts⟩
  · exact permits_nil _
  · by_cases hblock : head.kind = .block
    · rw [hblock]
      trivial
    · have hkept := kinds_of_isOf h (hitems hblock)
      revert hordinary hkept
      cases head.kind <;> intro hordinary hkept <;> first | exact hkept | trivial
  · rcases hkind with hkind | hkind | ⟨hkind, -⟩
    · rw [hkind]
      exact hparts
    · rw [hkind]
      exact hparts
    · exact absurd hkind hlambda

/-- Building the items, given what may be built below. -/
def Builds (cut : Cut) (items : List Syntax) : Prop :=
  ∀ ⦃opened : Bool⦄ ⦃p p' : Project⦄ ⦃parent parent' : Nat⦄, p.Sheds cut p' →
    p.Stands cut parent parent' → cut.base < parent → (opened = false → Syntax.FreeAll items) →
    Admits cut p parent (kinds items) →
    Follows cut ⟨opened, parent⟩ p p' (install parent items)
      (install parent' (withoutAll cut.drops items)) fun _ _ _ => True

lemma follows_anonymous (hparent : p.Stands cut parent parent') (hpos : cut.base < parent)
    (hkind : head.kind = .func) (hparts : kinds items <+: Kind.funcParts)
    (hfree : opened = false → Syntax.FreeAll items) (hbuilds : Builds cut items) :
    Follows cut ⟨opened, p.size⟩ p p'
      (makeAnonymous parent head >>= fun id => install id items >>= fun _ => pure id)
      (makeAnonymous parent' head >>= fun id =>
        install id (withoutAll cut.drops items) >>= fun _ => pure id)
      fun q id id' => q.Stands cut id id' ∧ p.size ≤ id ∧ (q.node id).kind = .func := by
  refine .bind_new (follows_makeAnonymous h hparent hpos hkind) (fun _ hpq => hpq)
    fun q q' id id' _ _ hq _ ⟨hid, hle, hfunc, hchildren, _⟩ => ⟨id, .inr hle, ?_⟩
  have hidpos : cut.base < id := Nat.lt_of_lt_of_le (Nat.lt_trans hpos hparent.lt) hle
  refine .bind (hbuilds hq hid hidpos hfree ?_) fun r r' _ _ hr hqr _ => ?_
  · rw [Admits, hfunc, kindsBelow, hchildren]
    exact hparts
  · exact follows_pure hr ⟨hid.extends hqr, hle, (hqr.kind id hid.lt).trans hfunc⟩

end

mutual

lemma follows_installItem (item : Syntax) (hneat : item.Neat) (hdrop : item.isOf cut.drops = false)
    {opened : Bool} {p p' : Project} {parent parent' : Nat} (h : p.Sheds cut p')
    (hparent : p.Stands cut parent parent') (hpos : cut.base < parent)
    (hfree : opened = false → item.Free)
    (hpermits : Admits cut p parent (Syntax.kinds [item])) :
    Follows cut ⟨opened, parent⟩ p p' (installItem parent item)
      (installItem parent' (item.without cut.drops))
      fun q _ _ => Gains parent (Syntax.kinds [item]) p q := by
  cases item with
  | declare =>
    refine .imp (follows_declare h hparent hpos)
      fun q q' _ _ _ (hpq : p.Extends cut ⟨opened, p.size⟩ q) _ =>
        ⟨hpq.elsewhere .refl, ?_⟩
    exact gains_nil h.sound hpq hparent.spans (Nat.ne_of_lt hparent.lt)
  | node head items =>
    have hbuilds : Builds cut items := follows_install items hneat.2
    have hfreeAll : opened = false → Syntax.FreeAll items := fun hopened => (hfree hopened).2
    rw [Syntax.without, installItem, installItem]
    refine .ite (fun hlambda => ?_) fun hlambda => ?_
    · have hlambda : head.kind = .lambda := by simpa using hlambda
      obtain ⟨hfreeItems, hparts⟩ := Syntax.Neat.free_of_lambda hneat hlambda
      have hassoc : ∀ (parent : Nat) (head : Head) (items : List Syntax),
          (makeAnonymous parent head >>= fun id => install id items >>= fun _ =>
            completeAnonymous parent id) =
          (makeAnonymous parent head >>= fun id => install id items >>= fun _ => pure id) >>=
            completeAnonymous parent := by
        intro parent head items
        simp
      rw [hassoc, hassoc]
      -- nothing in it is dropped
      refine .bind_of (.imp
        (follows_anonymous h hparent hpos rfl hparts (fun _ => hfreeItems) hbuilds)
        fun q q' id id' _ (hpq : p.Extends cut ⟨false, p.size⟩ q) hid =>
          ⟨hpq.of_closed, And.intro hid hpq⟩)
        (fun q (hpq : p.Extends cut ⟨opened, p.size⟩ q) => hpq.elsewhere .refl) ?_
      rintro q q' id id' hq - ⟨⟨hid, hle, hfunc⟩, hpq⟩
      have hnone : Gains parent [] p q :=
        gains_nil h.sound hpq hparent.spans (Nat.ne_of_lt hparent.lt)
      have hkinds : Syntax.kinds [.node head items] = [.lambda] := by rw [← hlambda]; rfl
      rw [hkinds] at hpermits ⊢
      refine .mono (follows_completeAnonymous hq (hparent.extends hpq) hpos hid hfunc ?_
        (hnone.permits hpq hq.sound hparent.spans hpermits)) fun r _ _ hgains =>
          hnone.trans (hpq.kind parent hparent.lt) hgains
      intro j hj hlt
      exact hpq.keeps rfl j (Nat.le_trans hle hj) hlt
    have hlambda : head.kind ≠ .lambda := by simpa using hlambda
    have hbelow := permits_kinds h hneat hlambda
    have hfill : ∀ q q' id id', q.Sheds cut q' → q.Stands cut id id' → cut.base < id →
        (q.node id).kind = head.kind → q.kindsBelow id = [] →
        Follows cut ⟨opened, id⟩ q q' (install id items)
          (install id' (Syntax.withoutAll cut.drops items)) fun _ _ _ => True := by
      intro q q' id id' hq hid hidpos hkind hnil
      refine hbuilds hq hid hidpos hfreeAll ?_
      rw [Admits, hkind, hnil]
      exact hbelow
    refine .ite (fun hfunc => ?_) fun hfunc => ?_
    · refine follows_fill h hparent (Syntax.Neat.ne_project hneat) hdrop hpermits
        (fun hkind => ?_) hfill
      exact absurd hkind (by simpa using hfunc)
    have hfunc : head.kind = .func := by simpa using hfunc
    refine follows_kind_bind h hparent (.ite (fun hfuncs => ?_) fun _ => ?_)
    · refine follows_fill h hparent (Syntax.Neat.ne_project hneat) hdrop hpermits
        (fun _ => ?_) fun q q' id id' hq hid hidpos hkind hnil => ?_
      · rw [beq_iff_eq.1 hfuncs]
        rfl
      refine (hfill q q' id id' hq hid hidpos hkind hnil).bind fun r r' _ _ hr hqr _ => ?_
      refine .either ?_ <| follows_pure hr trivial
      exact follows_completeFunction hr (hid.extends hqr) hidpos
        ((hqr.kind id hid.lt).trans (hkind.trans hfunc))
    · rw [hfunc] at hbelow
      have hassoc : ∀ (parent : Nat) (items : List Syntax),
          (makeAnonymous parent head >>= fun id => install id items) =
          (makeAnonymous parent head >>= fun id => install id items >>= fun _ => pure id) >>=
            fun _ => pure () := by
        intro parent items
        simp
      rw [hassoc, hassoc]
      refine .bind_of (follows_anonymous h hparent hpos hfunc hbelow hfreeAll hbuilds)
        (fun q hpq => hpq.elsewhere .refl) fun q q' _ _ hq hpq _ =>
          follows_pure hq ?_
      have hkinds : Syntax.kinds [.node head items] = [.func] := by rw [← hfunc]; rfl
      rw [hkinds]
      exact gains_nil h.sound hpq hparent.spans (Nat.ne_of_lt hparent.lt)

lemma follows_install (items : List Syntax) (hneat : Syntax.NeatAll items) : Builds cut items := by
  intro opened p p' parent parent' h hparent hpos hfree hpermits
  cases items with
  | nil => exact follows_pure h trivial
  | cons item rest =>
    have hkinds : kinds (item :: rest) = kinds [item] ++ kinds rest :=
      kinds_append [item] rest
    rw [hkinds] at hpermits
    have hitem : Admits cut p parent (kinds [item]) := by
      rw [Admits, ← append_assoc] at hpermits
      exact hpermits.of_append
    rw [install, withoutAll]
    cases hdrop : item.isOf cut.drops with
    | false =>
      have hfirst := follows_installItem item hneat.1 hdrop h hparent hpos
        (fun hopened => (hfree hopened).1) hitem
      refine .bind hfirst fun q q' _ _ hq hpq hgains => ?_
      exact follows_install rest hneat.2 hq (hparent.extends hpq) hpos
        (fun hopened => (hfree hopened).2) (hgains.permits hpq hq.sound hparent.spans hpermits)
    | true =>
      cases item with
      | declare => cases hdrop
      | node head below =>
        have haside := h.asides head.kind hdrop
        have hkind : head.kind ≠ .lambda ∧ head.kind ≠ .func := by
          constructor <;> intro hkind <;> rw [hkind] at haside <;> cases haside
        have hbelow : below = [] := by
          rcases hneat.1.1 with ⟨-, hnil⟩ | ⟨hordinary, -⟩ | ⟨hfunc | hmain | ⟨hlambda, -⟩, -⟩
          · exact hnil
          · rw [Kind.isAside_of_isOrdinary hordinary] at haside
            cases haside
          · exact absurd hfunc hkind.2
          · rw [hmain] at haside
            cases haside
          · exact absurd hlambda hkind.1
        subst hbelow
        have hrun : installItem parent (.node head []) p =
            .ok () (p.make parent (.ofHead head)) := by
          rw [installItem, if_neg (by simpa using hkind.1), if_pos (by simpa using hkind.2)]
          rfl
        have hq : (p.make parent (.ofHead head)).Sheds cut p' :=
          h.make_dropped hparent (fresh_mk (Syntax.Neat.ne_project hneat.1)) hdrop hitem
        have hpq : p.Extends cut ⟨opened, parent⟩ (p.make parent (.ofHead head)) := by
          refine extends_make hparent.spans (fun hopened => ?_) (.inl rfl)
          have hclosed := (hfree hopened).1.isAside_eq_false
          rw [isOf, haside] at hclosed
          cases hclosed
        refine .of_step hrun hpq (follows_install rest hneat.2 hq (hparent.extends hpq) hpos
          (fun hopened => (hfree hopened).2) ?_)
        rw [Admits, hpq.kind parent hparent.lt, kindsBelow_make_above h.sound hparent.spans,
          append_assoc]
        exact hpermits

end

/-! ### Names that nothing assigns -/

/-- Asides have no names. -/
lemma occurrences_kept (h : p.Sheds cut p') (hids : ∀ id ∈ ids, cut.base < id ∧ id < p.size) :
    occurrences p' (p.kept cut ids) = occurrences p ids := by
  simp only [occurrences]
  generalize ([]) = names
  induction ids generalizing names with
  | nil => rfl
  | cons id ids ih =>
    obtain ⟨hpos, hlt⟩ := hids id (.head _)
    have ih := ih fun i hi => hids i (.tail _ hi)
    rw [foldl_cons]
    cases hkeeps : p.keeps cut id with
    | true =>
      have hstands : p.Stands cut id (p.rank cut id) := ⟨⟨Nat.le_of_lt hpos, hlt⟩, hkeeps, rfl⟩
      have habove : (p'.node (p'.node (p.rank cut id)).parent).kind =
          (p.node (p.node id).parent).kind := by
        rw [h.node_eq hstands]
        show (p'.node (p.rank cut (p.node id).parent)).kind = _
        rw [h.node_eq (stands_parent h hstands hpos)]
        rfl
      rw [kept_cons_of_keeps hkeeps, foldl_cons, habove, h.node_eq hstands]
      exact ih _
    | false =>
      have hname : (p.node id).kind.isName = false := by
        rw [keeps, Bool.not_eq_false'] at hkeeps
        have haside := h.asides _ hkeeps
        cases hkind : (p.node id).kind <;> rw [hkind] at haside <;> first | rfl | cases haside
      rw [kept_cons_of_drops hkeeps, if_neg (by rw [hname]; exact Bool.false_ne_true)]
      exact ih _

lemma modest_setBackend (rules : RuleSet) : Modest fun node => { node with backend := rules } :=
  ⟨fun _ => ⟨rfl, rfl, rfl, fun h => h, fun h => h⟩, fun _ => rfl, fun _ => rfl, fun _ => rfl,
    fun _ _ _ => rfl⟩

lemma follows_reserveNames {reserved : List String} (hids : ∀ id ∈ ids, cut.base < id ∧ id < p.size)
    (hq : q.Sheds cut q') (hpq : p.Extends cut g q) :
    Follows cut g q q' (reserveNames reserved ids)
      (reserveNames reserved (p.kept cut ids)) fun _ _ _ => True := by
  induction ids generalizing q q' with
  | nil => exact follows_pure hq trivial
  | cons id ids ih =>
    obtain ⟨hpos, hlt⟩ := hids id (.head _)
    have hspans : q.Spans cut id := ⟨Nat.le_of_lt hpos, Nat.lt_of_lt_of_le hlt hpq.size_le⟩
    have ih : ∀ r r', r.Sheds cut r' → q.Extends cut g r →
        Follows cut g r r' (reserveNames reserved ids)
          (reserveNames reserved (p.kept cut ids)) fun _ _ _ => True := fun r r' hr hqr =>
      ih (fun i hi => hids i (.tail _ hi)) hr (hpq.trans hqr (.inl rfl))
    cases hkeeps : p.keeps cut id with
    | true =>
      have hid : q.Stands cut id (p.rank cut id) :=
        Stands.extends ⟨⟨Nat.le_of_lt hpos, hlt⟩, hkeeps, rfl⟩ hpq
      rw [kept_cons_of_keeps hkeeps]
      refine follows_name_bind hq hid (.either ?_ <| ih q q' hq .refl)
      exact .bind (follows_modest hq hid (modest_setBackend .reserved) fun _ => rfl)
        fun r r' _ _ hr hqr _ => ih r r' hr hqr
    | false =>
      rw [kept_cons_of_drops hkeeps]
      show Follows cut g q q' (if reserved.contains (q.node id).name then _ else _) _ _
      split
      · have hmodest := modest_setBackend .reserved
        have hqr : q.Extends cut g (q.update id _) :=
          extends_update (hmodest.mild (q.node id)) hspans fun _ => rfl
        have hrun : setBackend id .reserved q = .ok () (q.update id _) := rfl
        refine .of_step hrun hqr (ih _ _ (hq.update_dropped ?_ (hmodest.mild _)
          (hmodest.recalls (hq.sound.recalls hspans))) hqr)
        rw [hpq.keeps_eq hlt, hkeeps]
      · exact ih q q' hq .refl

section

variable (h : p.Sheds cut p') (hbase : cut.base = 0)

include h hbase

lemma stands_root : p.Stands cut 0 0 := by
  refine ⟨⟨Nat.le_of_eq hbase, Nat.lt_of_le_of_lt (Nat.zero_le _) h.sound.pos⟩, ?_, rfl⟩
  rw [keeps, (h.sound.root hbase).1, drops_eq_false h rfl]
  rfl

lemma follows_findUnassigned (name : String) :
    Follows cut g p p' (findUnassigned name) (findUnassigned name)
      fun q _ _ => ∀ g, (p.node 0).children = [g] → (q.node g).unassigned?.isSome = true := by
  have hroot := stands_root h hbase
  have hkept := keeps_of_mem h hroot (by rw [(h.sound.root hbase).1]; decide)
  refine follows_names_bind h hroot hkept ?_
  split
  · exact follows_throw h _
  · refine follows_child_bind h hroot hkept _ fun e hchild he => ?_
    have hpos : 0 < e := (h.sound.child 0 hroot.spans e (mem_of_getElem? hchild)).1
    have hids : ∀ id ∈ p.postorder false e, cut.base < id ∧ id < p.size := fun id hid => by
      obtain ⟨hle, hlt⟩ := h.sound.lt_of_below he.spans (below_of_mem_postorderSteps hid)
      exact ⟨Nat.lt_of_lt_of_le (hbase ▸ hpos) hle, hlt⟩
    have hnodes : p'.postorder false (p.rank cut e) = p.kept cut (p.postorder false e) :=
      h.postorderSteps_eq he (by unfold size; omega) (by unfold size; omega)
    have hunassigned : unassignedNames p' (p.kept cut (p.postorder false e)) =
        unassignedNames p (p.postorder false e) := by
      rw [unassignedNames, occurrences_kept h hids]
      rfl
    show Follows cut g p p'
      (reserveNames ((unassignedNames p (p.postorder false e)).partition fun name =>
        reservedNames.contains name).1 (p.postorder false e) >>= _)
      (reserveNames ((unassignedNames p' (p'.postorder false (p.rank cut e))).partition
        fun name => reservedNames.contains name).1 (p'.postorder false (p.rank cut e)) >>= _) _
    rw [hnodes, hunassigned]
    refine .bind (follows_reserveNames hids h .refl) fun q q' _ _ hq hpq _ => ?_
    refine .mono (follows_modest_eq hq (he.extends hpq) ?_ fun hpos => ?_)
      fun r _ _ hr only honly => ?_
    · exact ⟨fun _ => ⟨rfl, rfl, rfl, fun h => h, fun h => h⟩, fun _ => rfl, fun _ => rfl,
        fun _ => rfl, fun _ _ _ => rfl⟩
    · rw [hbase] at hpos
      cases hpos
    obtain rfl : e = only := mem_singleton.1 (honly ▸ mem_of_getElem? hchild)
    rw [hr, node_update_self (he.extends hpq).lt]
    rfl

end

/-! ### Loading -/

/-- A program with some of its parts. -/
structure Begun (cut : Cut) (ks : List Kind) (id id' : Nat) (p : Project) : Prop where
  stands : p.Stands cut id id'
  kind : (p.node id).kind = .program
  below : p.kindsBelow id = ks

lemma follows_makePart {node : Node} (h : p.Sheds cut p') (hid : Begun cut ks id id' p)
    (hfresh : Fresh node) (hparts : ks ++ [node.kind] <+: Kind.programParts) :
    Follows cut ⟨opened, id⟩ p p' (make id node) (make id' node) fun q part part' =>
      (q.Stands cut part part' ∧ cut.base < part ∧ (q.node part).kind = node.kind) ∧
        Begun cut (ks ++ [node.kind]) id id' q := by
  have haside : node.kind.isAside = false := by
    have hmem := hparts.subset (mem_append_right ks (mem_singleton_self node.kind))
    have hnone : ∀ kind ∈ Kind.programParts, kind.isAside = false := by decide
    exact hnone _ hmem
  have hpermits : Admits cut p id [node.kind] := by
    rw [Admits, hid.kind, hid.below]
    exact hparts
  refine .imp (follows_make h hid.stands hfresh (drops_eq_false h haside) hpermits (.inl rfl))
    fun q q' part part' _ hpq hmade => ⟨hpq, ?_, hid.stands.extends hpq, ?_, ?_⟩
  · have hpos : id < part := Nat.lt_of_lt_of_le hid.stands.lt hmade.size_le
    exact ⟨hmade.stands, Nat.lt_of_le_of_lt hid.stands.spans.1 hpos, hmade.kind⟩
  · rw [hpq.kind id hid.stands.lt, hid.kind]
  · rw [hmade.below, hid.below]

lemma follows_makeParts (h : p.Sheds cut p') (hid : Begun cut [] id id' p) (name : String) :
    Follows cut ⟨opened, id⟩ p p' (makeParts id name) (makeParts id' name)
      fun q funcs funcs' => q.Stands cut funcs funcs' ∧ cut.base < funcs ∧
        (q.node funcs).kind = .funcs := by
  refine .bind (follows_makePart h hid (fresh_mk (by decide)) ⟨_, rfl⟩)
    fun p2 p2' _ _ h2 h12 hpart => ?_
  refine .bind (follows_makePart h2 hpart.2 (fresh_mk (by decide)) ⟨_, rfl⟩)
    fun p3 p3' funcs funcs' h3 h23 hpart => ?_
  obtain ⟨⟨hfuncs, hpos, hkind⟩, hg3⟩ := hpart
  refine .bind (follows_makePart h3 hg3 (fresh_mk (by decide)) ⟨_, rfl⟩)
    fun p4 p4' _ _ h4 h34 hpart => ?_
  refine .bind (follows_makePart h4 hpart.2 (fresh_mk (by decide)) ⟨_, rfl⟩)
    fun p5 p5' _ _ h5 h45 hpart => ?_
  refine .bind (follows_makePart h5 hpart.2 (fresh_mk (by decide)) ⟨_, rfl⟩)
    fun p6 p6' _ _ h6 h56 hpart => ?_
  refine .bind (follows_makePart h6 hpart.2 (fresh_mk (by decide)) ⟨_, rfl⟩)
    fun p7 p7' _ _ h7 h67 _ => follows_pure h7 ?_
  have hlater := ((h34.trans h45 (.inl rfl)).trans h56 (.inl rfl)).trans h67 (.inl rfl)
  exact ⟨hfuncs.extends hlater, hpos, (hlater.kind funcs hfuncs.lt).trans hkind⟩

lemma ended_programText (code : String) : (Source.ofString (programText code)).Ended :=
  Source.ended_append _

lemma follows_build {α : Type} {k : Int} {P : List Syntax → α → Prop} {parser : Parse α}
    {text : String}
    (hlighter : Setting.Lighter (.ofString text) (p.options.setting text) (p'.options.setting text))
    (hdrops : (p.options.setting text).drops (p'.options.setting text) = cut.drops)
    (hparser : parser.Sound (.ofString text) .closed k P) (h : p.Sheds cut p')
    (hparent : p.Stands cut parent parent') (hpos : cut.base < parent)
    (hkind : (p.node parent).kind = .funcs) :
    Follows cut ⟨true, parent⟩ p p' (build parent text parser) (build parent' text parser)
      fun _ a a' => a = a' := by
  obtain ⟨hmade, houtcome, ⟨hneat, hclosed⟩, -⟩ := hparser hlighter
  rw [hdrops] at hmade
  have hkinds : Admits cut p parent (kinds (parser (p.options.setting text)).made) := by
    have hbelow := h.sound.below parent hparent.spans
    have hkept := kinds_of_isOf h hclosed
    rw [hkind] at hbelow
    rw [Admits, hkind]
    exact forall_mem_append.2 ⟨hbelow, hkept⟩
  let q : Project :=
    { p with shown := (parser (p.options.setting text)).notes.reverse ++ p.shown }
  let q' : Project :=
    { p' with shown := (parser (p'.options.setting text)).notes.reverse ++ p'.shown }
  have hq : q.Sheds cut q' := h.of_nodes_eq rfl rfl
  have hpq : p.Extends cut ⟨true, parent⟩ q := .of_nodes_eq rfl rfl
  have hbuilt : Follows cut ⟨true, parent⟩ q q'
      (install parent (parser (p.options.setting text)).made >>= fun _ =>
        liftM (parser (p.options.setting text)).outcome)
      (install parent' (parser (p'.options.setting text)).made >>= fun _ =>
        liftM (parser (p'.options.setting text)).outcome) fun _ a a' => a = a' := by
    rw [hmade, houtcome]
    refine .bind (follows_install _ hneat hq (hparent.extends hpq) hpos nofun hkinds)
      fun r r' _ _ hr _ _ => ?_
    cases (parser (p.options.setting text)).outcome with
    | error failure => exact follows_throw hr failure
    | ok a => exact follows_pure hr rfl
  exact .of_run (show build parent text parser p = (install parent _ >>= _) q from rfl) rfl hpq
    (.inl rfl) hbuilt

section Load

variable (h : p.Sheds cut p') (hcomments : p'.options.comments = true → p.options.comments = true)
  (hdisp : p'.options.disp = true → p.options.disp = true)
  (hdrops : (p.options.setting "").drops (p'.options.setting "") = cut.drops)

include h hcomments hdisp hdrops

lemma follows_buildParts {text : String} (hended : (Source.ofString text).Ended)
    (hid : Begun cut [] id id' p) (name : String) :
    Follows cut ⟨true, id⟩ p p' (makeParts id name >>= fun funcs => build funcs text Parse.program)
      (makeParts id' name >>= fun funcs => build funcs text Parse.program)
      fun _ a a' => a = a' := by
  refine .bind_new (follows_makeParts h hid name) (fun _ hpq => hpq) ?_
  rintro q q' funcs funcs' hrun hrun' hq _ ⟨hfuncs, hpos, hkind⟩
  have hoptions := options_of_makeParts hrun
  have hoptions' := options_of_makeParts hrun'
  have hlighter : Setting.Lighter (.ofString text) (q.options.setting text)
      (q'.options.setting text) := by
    rw [hoptions, hoptions']
    exact ⟨hended, rfl, rfl, hcomments, hdisp⟩
  have hdrops : (q.options.setting text).drops (q'.options.setting text) = cut.drops := by
    rw [hoptions, hoptions', ← hdrops]
    funext kind
    cases kind <;> rfl
  have hbuild := follows_build hlighter hdrops Parse.sound_program hq hfuncs hpos hkind
  have hgrows : (q.node funcs).kind.isGrowing = true := by
    rw [hkind]
    rfl
  exact ⟨id, .inl rfl, .imp hbuild fun r r' _ _ _ hqr heq => ⟨hqr.of_isGrowing hgrows, heq⟩⟩

variable (hbase : cut.base = 0)

include hbase

lemma follows_buildProgram {text : String} (hended : (Source.ofString text).Ended) (name : String) :
    Follows cut ⟨true, 0⟩ p p'
      (makeProgram name text >>= fun funcs => build funcs text Parse.program >>= fun _ =>
        findUnassigned name)
      (makeProgram name text >>= fun funcs => build funcs text Parse.program >>= fun _ =>
        findUnassigned name)
      fun q _ _ => (p.node 0).children = [] →
        ∃ g, (q.node 0).children = [g] ∧ (q.node g).unassigned?.isSome = true := by
  have hroot := stands_root h hbase
  have hpermits : Admits cut p 0 [.program] := by
    have hbelow := h.sound.below 0 hroot.spans
    rw [(h.sound.root hbase).1] at hbelow
    rw [Admits, (h.sound.root hbase).1]
    exact forall_mem_append.2 ⟨hbelow, forall_mem_singleton.2 rfl⟩
  have hparts : ∀ program : NodeId, (makeParts program name >>= fun funcs =>
      build funcs text Parse.program >>= fun _ => findUnassigned name) =
      (makeParts program name >>= fun funcs => build funcs text Parse.program) >>= fun _ =>
        findUnassigned name := fun _ => (bind_assoc ..).symm
  rw [makeProgram_eq_bind, bind_assoc]
  simp only [hparts]
  refine .bind_new (follows_make h hroot (fresh_mk (by decide)) (drops_eq_false h rfl)
    hpermits (.inl rfl)) (fun _ hpq => hpq) fun q q' g g' hrun hrun' hq hpq hg =>
    ⟨g, .inr hg.size_le, ?_⟩
  have hbegun : Begun cut [] g g' q := ⟨hg.stands, hg.kind, by rw [kindsBelow, hg.children]; rfl⟩
  obtain ⟨hoptions, hoptions'⟩ : q.options = p.options ∧ q'.options = p'.options := by
    cases hrun
    cases hrun'
    exact ⟨rfl, rfl⟩
  rw [← hoptions, ← hoptions'] at hcomments hdisp hdrops
  have hzero : 0 < g := Nat.zero_lt_of_lt (Nat.lt_of_lt_of_le h.sound.pos hg.size_le)
  refine .bind (follows_buildParts hq hcomments hdisp hdrops hended hbegun name)
    fun r r' _ _ hr hqr _ => ?_
  refine .imp (follows_findUnassigned hr hbase name) fun s s' _ _ hs
    (hrs : r.Extends cut ⟨true, r.size⟩ s) hfound => ⟨hrs.elsewhere .refl, fun hnone => ?_⟩
  -- the root has no other program below it
  have hbelow : (r.node 0).children = [g] := by
    rw [hqr.frame 0 (stands_root hq hbase).lt (Nat.ne_of_lt hzero)
      (by rw [(hq.sound.root hbase).1]; rfl), hg.grown, hnone]
    rfl
  refine ⟨g, ?_, hfound g hbelow⟩
  have hpos : 0 < r.size := by
    rw [← hbase]
    exact hr.sound.pos
  rw [hrs.frame 0 hpos (Nat.ne_of_lt hpos) (by rw [(hr.sound.root hbase).1]; rfl), hbelow]

lemma follows_load (name code : String) :
    Follows cut ⟨true, 0⟩ p p' (load name code) (load name code) fun q _ _ =>
      (p.node 0).children = [] →
        ∃ g, (q.node 0).children = [g] ∧ (q.node g).unassigned?.isSome = true := by
  obtain ⟨shown, hload⟩ := exists_load_eq name code p
  obtain ⟨shown', hload'⟩ := exists_load_eq name code p'
  have hended := ended_programText code
  generalize programText code = text at hload hload' hended
  have hq : Sheds cut { p with text? := some text, shown }
      { p' with text? := some text, shown := shown' } := h.of_nodes_eq rfl rfl
  have hpq : p.Extends cut ⟨true, 0⟩ { p with text? := some text, shown } := .of_nodes_eq rfl rfl
  exact .of_run hload hload' hpq (.inl rfl)
    (follows_buildProgram hq hcomments hdisp hdrops hbase hended name)

end Load

end Edit

end ArmaGen
