import ArmaGen.Proofs.Project.Annex

/-!
# Loaded programs keep their promises

Building syntax into a project puts the promised nodes below each node: what is declared on the way
promises nothing (`Project.Adds`). `Edit.load_grants` says what stands below the nodes of a program
that has been loaded. What was read forward is built so that no node stands before the node above it
(`Project.Seat`).
-/

namespace ArmaGen

open Syntax

lemma Syntax.Neat.isOuter_eq_false {head : Head} {items : List Syntax}
    (hneat : (Syntax.node head items).Neat) : head.kind.isOuter = false := by
  rcases hneat.1 with ⟨haside, -⟩ | ⟨hordinary, -⟩ | ⟨hfunc | hmain | ⟨hlambda, -⟩, -⟩
  · cases hkind : head.kind <;> first | rfl | (rw [hkind] at haside; cases haside)
  · cases hkind : head.kind <;> first | rfl | (rw [hkind] at hordinary; cases hordinary)
  · rw [hfunc]
    rfl
  · rw [hmain]
    rfl
  · rw [hlambda]
    rfl

namespace Project

variable {p q r : Project} {id base : Nat} {c : Int}

/-! ### Nodes that stay -/

/-- Nodes stay where they are. -/
structure Labels (p q : Project) : Prop where
  size_le : p.size ≤ q.size
  site : ∀ id < p.size, (q.node id).site = (p.node id).site

lemma Labels.trans (h : p.Labels q) (h' : q.Labels r) : p.Labels r where
  size_le := Nat.le_trans h.size_le h'.size_le
  site id hid := (h'.site id (Nat.lt_of_lt_of_le hid h.size_le)).trans (h.site id hid)

namespace Labels

variable (h : p.Labels q) (hid : id < p.size)

include h hid

lemma kind : (q.node id).kind = (p.node id).kind :=
  congrArg (·.1) (h.site id hid)

lemma parent : (q.node id).parent = (p.node id).parent :=
  congrArg (·.2.1) (h.site id hid)

lemma cur : (q.node id).cur? = (p.node id).cur? :=
  congrArg (·.2.2.1) (h.site id hid)

lemma line : (q.node id).foundLine? = (p.node id).foundLine? :=
  congrArg (·.2.2.2.2) (h.site id hid)

end Labels

lemma Stays.labels (h : p.Stays q) : p.Labels q :=
  ⟨Nat.le_of_eq h.size.symm, fun id _ => h.site id⟩

variable {parent : Nat} {f : Node → Node} {node : Node}

lemma labels_make (parent : Nat) (node : Node) : p.Labels (p.make parent node) ∧
    ((p.make parent node).node p.size).site = { node with parent }.site := by
  let pushed : Project := { p with nodes := p.nodes.push { node with parent } }
  have hsite : ∀ id, ((p.make parent node).node id).site = (pushed.node id).site := fun id =>
    apply_node_update fun _ => rfl
  refine ⟨⟨by rw [size_make]; omega, fun id hid => ?_⟩, ?_⟩
  · rw [hsite, show pushed.node id = p.node id from node_push_of_lt hid]
  · rw [hsite]
    simp [pushed, Project.node, size]

/-- New nodes promise nothing and have no places, and the others stay. -/
structure Adds (p q : Project) : Prop extends Labels p q where
  new : ∀ id, p.size ≤ id → id < q.size → (q.node id).Loose

lemma Labels.loose (h : p.Labels q) (hid : id < p.size) (hloose : (p.node id).Loose) :
    (q.node id).Loose := by
  rwa [Node.Loose, h.kind hid, h.cur hid, h.line hid]

lemma Adds.of_nodes_eq (h : q.nodes = p.nodes) : p.Adds q := by
  have hsize : q.size = p.size := congrArg Array.size h
  refine ⟨⟨Nat.le_of_eq hsize.symm, fun id _ => by rw [node_congr h]⟩, fun id hle hlt => ?_⟩
  rw [hsize] at hlt
  exact absurd hlt (Nat.not_lt.2 hle)

lemma Adds.refl : p.Adds p :=
  .of_nodes_eq rfl

lemma Adds.trans (h : p.Adds q) (h' : q.Adds r) : p.Adds r where
  toLabels := h.toLabels.trans h'.toLabels
  new id hle hlt := by
    by_cases hq : id < q.size
    · exact h'.toLabels.loose hq (h.new id hle hq)
    · exact h'.new id (Nat.not_lt.1 hq) hlt

lemma adds_update (hf : ∀ node, (f node).site = node.site) : p.Adds (p.update id f) := by
  have hsize : (p.update id f).size = p.size := size_update
  refine ⟨⟨Nat.le_of_eq hsize.symm, fun _ _ => apply_node_update hf⟩, fun j hle hlt => ?_⟩
  rw [hsize] at hlt
  exact absurd hlt (Nat.not_lt.2 hle)

lemma adds_make (hnode : node.Loose) : p.Adds (p.make parent node) := by
  obtain ⟨hlabels, hsite⟩ := labels_make parent node
  refine ⟨hlabels, fun id hle hlt => ?_⟩
  rw [size_make] at hlt
  obtain rfl : id = p.size := by omega
  obtain ⟨hkind, -, hcur, -, hline⟩ : _ ∧ _ ∧ _ ∧ _ ∧ _ := by
    simpa only [Node.site, Prod.mk.injEq] using hsite
  rwa [Node.Loose, hkind, hcur, hline]

/-! ### Places -/

lemma Place.labels (h : p.Place id c) (hpq : p.Labels q) (hid : id < p.size) : q.Place id c := by
  induction h with
  | own h => exact .own ((hpq.cur hid).trans h)
  | @above id c h hlt _ ih =>
    refine .above ((hpq.cur hid).trans h) (by rwa [hpq.parent hid]) ?_
    rw [hpq.parent hid]
    exact ih (Nat.lt_trans hlt hid)

/-- A node in a program does not stand before the node above it, and its line is not known yet. -/
structure Seat (q : Project) (id : Nat) : Prop where
  inner : (q.node id).kind.isOuter = false
  unread : (q.node id).foundLine? = none
  place : ∀ cur ∈ (q.node id).cur?, ∃ above, q.Place (q.node id).parent above ∧ above ≤ cur

lemma seat_of_loose (h : (q.node id).Loose) : q.Seat id :=
  ⟨h.2.1, h.2.2.2, by rw [h.2.2.1]; nofun⟩

lemma Seat.labels (h : p.Seat id) (hpq : p.Labels q) (hid : id < p.size)
    (hparent : (p.node id).parent < id) : q.Seat id where
  inner := by
    rw [hpq.kind hid]
    exact h.inner
  unread := (hpq.line hid).trans h.unread
  place cur hcur := by
    rw [hpq.cur hid] at hcur
    obtain ⟨above, habove, hle⟩ := h.place cur hcur
    rw [hpq.parent hid]
    exact ⟨above, habove.labels hpq (Nat.lt_trans hparent hid), hle⟩

/-- The functions of a program stand at the start of its text. -/
def Rooted (base : Nat) (p : Project) : Prop :=
  ∀ id, base ≤ id → id < p.size → (p.node id).kind = .funcs → p.Place id 0

lemma Rooted.labels (h : p.Rooted base) (hpq : p.Labels q)
    (hnew : ∀ id, p.size ≤ id → id < q.size → q.Seat id) : q.Rooted base := by
  intro id hle hlt hkind
  by_cases hid : id < p.size
  · rw [hpq.kind hid] at hkind
    exact (h id hle hid hkind).labels hpq hid
  · have hinner := (hnew id (Nat.not_lt.1 hid) hlt).inner
    rw [hkind] at hinner
    cases hinner

lemma seat_head {head : Head} {items : List Syntax} {above : Nat} {text? : Option String}
    (hkind : head.kind.isOuter = false)
    (hsite : (q.node id).site = (head.kind, above, head.cur?, text?, none)) (hlt : above < id)
    (hc : 0 ≤ c) (hplace : q.Place above c) (hplaced : (Syntax.node head items).Placed c) :
    q.Seat id ∧ ∃ c', 0 ≤ c' ∧ q.Place id c' ∧ PlacedAll c' items := by
  obtain ⟨hkind', rfl, hcur, -, hline⟩ : _ ∧ _ ∧ _ ∧ _ ∧ _ := by
    simpa only [Node.site, Prod.mk.injEq] using hsite
  obtain ⟨hle, hitems⟩ := hplaced
  refine ⟨⟨by rw [hkind', hkind], hline, fun cur hmem => ⟨c, hplace, ?_⟩⟩, head.cur?.getD c,
    Int.le_trans hc hle, ?_, hitems⟩
  · rw [hcur] at hmem
    rwa [hmem] at hle
  · cases hhead : head.cur? with
    | none => exact .above (hcur.trans hhead) hlt hplace
    | some cur => exact .own (hcur.trans hhead)

/-! ### Promises -/

variable {s : Source}

/-- New nodes have the promised nodes below them, but for gaps in a text, and the others stay. -/
structure Fulfils (s : Source) (p q : Project) : Prop extends Labels p q where
  new : ∀ id, p.size ≤ id → id < q.size →
    s.Grants (q.node id).kind (q.node id).cur? (q.kindsBelow id) ∧ q.Seat id

lemma Adds.fulfils (h : p.Adds q) : p.Fulfils s q :=
  ⟨h.toLabels, fun id hle hlt =>
    have hnew := h.new id hle hlt
    ⟨Source.grants_any hnew.1 _ _, seat_of_loose hnew⟩⟩

lemma Adds.trans_fulfils (h : p.Adds q) (h' : q.Fulfils s r) : p.Fulfils s r where
  toLabels := h.toLabels.trans h'.toLabels
  new id hle hlt := by
    by_cases hq : id < q.size
    · have hloose := h'.toLabels.loose hq (h.new id hle hq)
      exact ⟨Source.grants_any hloose.1 _ _, seat_of_loose hloose⟩
    · exact h'.new id (Nat.not_lt.1 hq) hlt

lemma isGrowing_eq_false {kind : Kind} (h : kind.promise ≠ .any) : kind.isGrowing = false := by
  cases kind <;> first | rfl | exact absurd rfl h

lemma Fulfils.trans {g : Growth} (h : p.Fulfils s q) (hbase : base < p.size)
    (hq : q.Whole base) (hqr : q.Extends (.whole base) g r)
    (habove : g.above < p.size ∨ q.size ≤ g.above) (h' : q.Fulfils s r) : p.Fulfils s r where
  toLabels := h.toLabels.trans h'.toLabels
  new id hle hlt := by
    by_cases hid : id < q.size
    · have hpos : base < id := Nat.lt_of_lt_of_le hbase hle
      obtain ⟨hgrants, hseat⟩ := h.new id hle hid
      refine ⟨?_, hseat.labels h'.toLabels hid (hq.sound.parent id hpos hid).1.2⟩
      rw [h'.kind hid, h'.cur hid]
      by_cases hany : (q.node id).kind.promise = .any
      · exact Source.grants_any hany _ _
      · rw [hqr.kindsBelow_eq hq.sound ⟨Nat.le_of_lt hpos, hid⟩ (by omega)
          (isGrowing_eq_false hany)]
        exact hgrants
    · exact h'.new id (Nat.not_lt.1 hid) hlt

lemma Fulfils.of_make (h : (p.make parent node).Fulfils s q)
    (hgrants : s.Grants node.kind node.cur? (q.kindsBelow p.size)) (hseat : q.Seat p.size) :
    p.Fulfils s q := by
  obtain ⟨hlabels, hsite⟩ := labels_make parent node
  refine ⟨hlabels.trans h.toLabels, fun id hle hlt => ?_⟩
  by_cases hid : id = p.size
  · have hsize : p.size < (p.make parent node).size := by rw [size_make]; exact Nat.lt_succ_self _
    subst hid
    rw [h.kind hsize, h.cur hsize, show ((p.make parent node).node p.size).kind = node.kind from
      congrArg (·.1) hsite, show ((p.make parent node).node p.size).cur? = node.cur? from
      congrArg (·.2.2.1) hsite]
    exact ⟨hgrants, hseat⟩
  · exact h.new id (by rw [size_make]; omega) hlt

end Project

namespace Edit

variable {α : Type} {m : Edit α} {id : NodeId}

/-- Whenever a computation succeeds, the nodes that are new promise nothing, and the others stay. -/
def Adds (m : Edit α) : Prop :=
  ∀ ⦃p a q⦄, m p = .ok a q → p.Adds q

lemma Tidy.adds (h : Tidy anywhere m) : Adds m := by
  induction h with
  | pure a =>
    rintro p _ _ ⟨⟩
    exact .refl
  | throw failure => rintro p _ _ ⟨⟩
  | getBind _ _ ih => exact fun p _ _ hrun => ih p hrun
  | nodeBind _ _ ih => exact fun p _ _ hrun => ih _ hrun
  | update _ hkeeps =>
    rintro p _ _ ⟨⟩
    exact Project.adds_update fun node => (hkeeps node).1
  | make hnode =>
    rintro p _ _ ⟨⟩
    exact Project.adds_make hnode
  | bind _ _ ihm ihf =>
    intro p b r hrun
    obtain ⟨a, q, hq, hr⟩ := exists_of_bind_ok hrun
    exact (ihm hq).trans (ihf a hr)

/-! ### Syntax -/

open Project

variable {p q : Project} {base : Nat}

mutual

lemma without_none : ∀ tree : Syntax, tree.without (fun _ => false) = tree
  | .declare => rfl
  | .node head items => by rw [without, withoutAll_none items]

lemma withoutAll_none : ∀ items : List Syntax, withoutAll (fun _ => false) items = items
  | [] => rfl
  | item :: rest => by
    have hkept : item.isOf (fun _ => false) = false := by cases item <;> rfl
    rw [withoutAll, hkept, without_none item, withoutAll_none rest]
    rfl

end

variable {s : Source}

lemma fulfils_filled {c : Nat} {node : Node} {items : List Syntax}
    (hwhole : (p.make c node).Whole base) (hpos : base < p.size)
    (hseat : (p.make c node).Seat p.size) (hfits : (p.make c node).Fulfils s q)
    (hgains : Gains p.size (kinds items) (p.make c node) q)
    (hbelow : (p.make c node).kindsBelow p.size = [])
    (hgrants : s.Grants node.kind node.cur? (kinds items)) : p.Fulfils s q := by
  have hsize : p.size < (p.make c node).size := by rw [size_make]; exact Nat.lt_succ_self _
  refine hfits.of_make ?_ (hseat.labels hfits.toLabels hsize (hwhole.sound.parent _ hpos hsize).1.2)
  obtain ⟨-, hsite⟩ := labels_make c node
  by_cases hany : node.kind.promise = .any
  · exact Source.grants_any hany _ _
  · have hkind : ((p.make c node).node p.size).kind = node.kind := congrArg (·.1) hsite
    rw [hgains (by rw [hkind]; exact isGrowing_eq_false hany), hbelow]
    exact hgrants.filter

/-- Syntax may be put below a node, at or after its position. -/
structure Accepts (base parent : Nat) (items : List Syntax) (p : Project) : Prop where
  whole : p.Whole base
  lt : parent < p.size
  pos : base < parent
  permits : Admits (.whole base) p parent (kinds items)
  rooted : p.Rooted base
  placed : ∃ c, 0 ≤ c ∧ p.Place parent c ∧ PlacedAll c items

/-- What is built of the items keeps its promises, and stands below the node. -/
def Fills (s : Source) (base : Nat) (items : List Syntax) : Prop :=
  ∀ ⦃p q parent⦄, Accepts base parent items p → install parent items p = .ok () q →
    p.Fulfils s q ∧ Gains parent (kinds items) p q

lemma makeAnonymous_eq_ok {parent id : Nat} {head : Head}
    (hmake : makeAnonymous parent head p = .ok id q) :
    ∃ (r : Project) (c : Nat) (name : String), p.Adds r ∧ id = r.size ∧
      q = r.make c { Node.ofHead head with name } := by
  obtain ⟨c, p1, hfuncs, hmake⟩ := exists_of_bind_ok hmake
  obtain ⟨taken, p2, hnames, hmake⟩ := exists_of_bind_ok hmake
  cases hmake
  exact ⟨p2, c, _, (tidy_funcsOf.adds hfuncs).trans (tidy_names.adds hnames), rfl, rfl⟩

variable {parent : Nat} {items : List Syntax}

lemma Accepts.stands (h : Accepts base parent items p) : p.Stands (.whole base) parent parent :=
  stands_self (Nat.le_of_lt h.pos) h.lt

lemma install_eq_ok (h : Accepts base parent items p) (hneat : Syntax.NeatAll items)
    (hrun : install parent items p = .ok () q) :
    q.Whole base ∧ p.Extends (.whole base) ⟨true, parent⟩ q := by
  have hfollows : Builds (.whole base) items := follows_install items hneat
  have hself := @hfollows true p p parent parent h.whole h.stands h.pos nofun h.permits
  rw [withoutAll_none] at hself
  obtain ⟨hq, hpq, -⟩ := hself.self hrun
  exact ⟨hq, hpq⟩

lemma installItem_eq_ok {item : Syntax} (h : Accepts base parent [item] p)
    (hneat : item.Neat) (hrun : installItem parent item p = .ok () q) :
    q.Whole base ∧ p.Extends (.whole base) ⟨true, parent⟩ q ∧ Gains parent (kinds [item]) p q := by
  have hkept : item.isOf (fun _ => false) = false := by cases item <;> rfl
  have hself := @follows_installItem (.whole base) item hneat hkept true p p parent parent h.whole
    h.stands h.pos nofun h.permits
  rw [without_none] at hself
  exact hself.self hrun

lemma Fills.new {id : Nat} {kind : Kind} {r : Project} (hfills : Fills s base items)
    (hneat : Syntax.NeatAll items) (hq : q.Whole base) (hid : q.Stands (.whole base) id id)
    (hpos : base < id) (hkind : (q.node id).kind = kind) (hchildren : (q.node id).children = [])
    (hpermits : kind.Permits (fun _ => false) (kinds items)) (hrooted : q.Rooted base)
    (hplaced : ∃ c, 0 ≤ c ∧ q.Place id c ∧ PlacedAll c items)
    (hinstall : install id items q = .ok () r) :
    (q.Fulfils s r ∧ Gains id (kinds items) q r ∧ q.kindsBelow id = []) ∧
      q.Extends (.whole base) ⟨true, id⟩ r ∧ r.Whole base ∧ id < r.size ∧ base < id ∧
      (r.node id).kind = kind := by
  have hbelow : q.kindsBelow id = [] := by
    rw [kindsBelow, hchildren]
    rfl
  have hinner : Accepts base id items q :=
    ⟨hq, hid.lt, hpos, by rwa [Admits, hkind, hbelow], hrooted, hplaced⟩
  obtain ⟨hr, hqr⟩ := install_eq_ok hinner hneat hinstall
  obtain ⟨hfits, hgains⟩ := hfills hinner hinstall
  exact ⟨⟨hfits, hgains, hbelow⟩, hqr, hr, Nat.lt_of_lt_of_le hid.lt hqr.size_le, hpos,
    (hqr.kind id hid.lt).trans hkind⟩

lemma rooted_make {c : Nat} {node : Node} (h : p.Rooted base)
    (hseat : (p.make c node).Seat p.size) : (p.make c node).Rooted base := by
  refine h.labels (labels_make c node).1 fun id hle hlt => ?_
  rw [size_make] at hlt
  obtain rfl : id = p.size := by omega
  exact hseat

lemma fulfils_fill {head : Head} {id : Nat} {r : Project}
    (h : Accepts base parent [.node head items] p) (hneat : (Syntax.node head items).Neat)
    (hshaped : (Syntax.node head items).Shaped s) (hlambda : head.kind ≠ .lambda)
    (hfills : Fills s base items) (hmake : make parent (.ofHead head) p = .ok id q)
    (hinstall : install id items q = .ok () r) :
    p.Fulfils s r ∧ r.Whole base ∧ id < r.size ∧ base < id ∧ (r.node id).kind = head.kind := by
  obtain ⟨hq, -, hnew⟩ := (follows_make h.whole h.stands
    (fresh_mk (Syntax.Neat.ne_project hneat)) rfl h.permits (.inl rfl) :
    Follows _ ⟨true, _⟩ _ _ _ _ _).self hmake
  cases hmake
  obtain ⟨hlabels, hsite⟩ := labels_make parent (.ofHead head)
  obtain ⟨c, hc, hplace, hplaced, -⟩ := h.placed
  obtain ⟨hseat, hitems⟩ := seat_head (Syntax.Neat.isOuter_eq_false hneat) hsite h.lt hc
    (hplace.labels hlabels h.lt) hplaced
  have hpos : base < p.size := h.whole.sound.pos
  obtain ⟨⟨hfits, hgains, hbelow⟩, -, hrest⟩ := hfills.new hneat.2 hq hnew.stands hpos hnew.kind
    hnew.children (permits_kinds h.whole hneat hlambda) (rooted_make h.rooted hseat) hitems hinstall
  refine ⟨fulfils_filled hq hpos hseat hfits hgains hbelow ?_, hrest⟩
  have hgrown : head.kind.grown = head.kind := by
    cases hkind : head.kind <;> first | rfl | exact absurd hkind hlambda
  have hgrants := hshaped.1
  rwa [hgrown] at hgrants

lemma fulfils_anonymous {head : Head} {id : Nat} {others : List Syntax} {r : Project}
    (h : Accepts base parent others p) (hkind : head.kind = .func) (hneat : Syntax.NeatAll items)
    (hfills : Fills s base items) (hparts : kinds items <+: Kind.funcParts)
    (hmake : makeAnonymous parent head p = .ok id q) (hinstall : install id items q = .ok () r)
    (hgrants : s.Grants .func head.cur? (kinds items))
    (hplaced : (Syntax.node head items).Placed 0) :
    p.Fulfils s r ∧ p.Extends (.whole base) ⟨true, p.size⟩ r ∧ r.Whole base ∧
      id < r.size ∧ base < id ∧ (r.node id).kind = .func := by
  obtain ⟨hq, hpq, hstands, hle, hfunc, hchildren, hfuncs⟩ :=
    (follows_makeAnonymous h.whole h.stands h.pos hkind :
      Follows _ ⟨true, p.size⟩ _ _ _ _ _).self hmake
  have hpos : base < id := Nat.lt_of_lt_of_le h.whole.sound.pos hle
  obtain ⟨p1, c, name, hadds, rfl, rfl⟩ := makeAnonymous_eq_ok hmake
  -- the function stands below the functions of the program, which start with its text
  obtain ⟨hlabels, hsite⟩ := labels_make c { Node.ofHead head with name }
  have hparent : ((p1.make c { Node.ofHead head with name }).node p1.size).parent = c :=
    congrArg (·.2.1) hsite
  obtain ⟨⟨hle', hlt⟩, -⟩ := hq.sound.parent p1.size hpos hstands.lt
  rw [hparent] at hle' hlt hfuncs
  have hrooted : p1.Rooted base :=
    h.rooted.labels hadds.toLabels fun id hle hlt => seat_of_loose (hadds.new id hle hlt)
  have hplace : p1.Place c 0 := hrooted c hle' hlt (hlabels.kind hlt ▸ hfuncs)
  obtain ⟨hseat, hitems⟩ := seat_head (by rw [hkind]; rfl) hsite hlt Int.le_rfl
    (hplace.labels hlabels hlt) hplaced
  obtain ⟨⟨hfits, hgains, hbelow⟩, hqr, hrest⟩ := hfills.new hneat hq hstands hpos hfunc hchildren
    hparts (rooted_make hrooted hseat) hitems hinstall
  refine ⟨hadds.trans_fulfils (fulfils_filled hq hpos hseat hfits hgains hbelow ?_),
    hpq.trans hqr (.inr hle), hrest⟩
  show s.Grants head.kind head.cur? (kinds items)
  rwa [hkind]

mutual

lemma fulfils_installItem (item : Syntax) (hneat : item.Neat) (hshaped : item.Shaped s)
    {p q : Project} {parent : Nat} (h : Accepts base parent [item] p)
    (hrun : installItem parent item p = .ok () q) : p.Fulfils s q := by
  cases item with
  | declare => exact (tidy_declare.adds hrun).fulfils
  | node head items =>
    have hfills : Fills s base items := fills_items items hneat.2 hshaped.2
    have hbase : base < p.size := h.whole.sound.pos
    obtain ⟨c, hc, -, hplaced, -⟩ := h.placed
    have hplaced := hplaced.mono hc
    rw [installItem] at hrun
    split at hrun
    · next hlambda =>
      have hlambda : head.kind = .lambda := by simpa using hlambda
      obtain ⟨-, hparts⟩ := Syntax.Neat.free_of_lambda hneat hlambda
      obtain ⟨id, p1, hmake, hrun⟩ := exists_of_bind_ok hrun
      obtain ⟨_, p2, hinstall, hcomplete⟩ := exists_of_bind_ok hrun
      have hgrants := hshaped.1
      rw [hlambda] at hgrants
      obtain ⟨hfits, hext, hp2, hid, hidpos, hfunc⟩ :=
        fulfils_anonymous h rfl hneat.2 hfills hparts hmake hinstall hgrants hplaced
      -- a reference to the function is put below the node
      have hnone : Gains parent [] p p2 :=
        gains_nil h.whole.sound hext h.stands.spans (Nat.ne_of_lt h.lt)
      have hkinds : kinds [.node head items] = [.lambda] := by rw [← hlambda]; rfl
      have hpermits := h.permits
      rw [hkinds] at hpermits
      obtain ⟨-, hext2, -⟩ := (follows_completeAnonymous hp2
        (h.stands.extends hext) h.pos (stands_self (Nat.le_of_lt hidpos) hid) hfunc
        (fun _ _ _ => rfl) (hnone.permits hext hp2.sound h.stands.spans hpermits) :
        Follows _ ⟨true, _⟩ _ _ _ _ _).self hcomplete
      exact hfits.trans hbase hp2 hext2 (.inl h.lt)
        ((tidy_completeAnonymous parent).adds hcomplete).fulfils
    · next hlambda =>
      have hlambda : head.kind ≠ .lambda := by simpa using hlambda
      split at hrun
      · obtain ⟨id, p1, hmake, hinstall⟩ := exists_of_bind_ok hrun
        exact (fulfils_fill h hneat hshaped hlambda hfills hmake hinstall).1
      · next hfunc =>
        have hfunc : head.kind = .func := by simpa using hfunc
        obtain ⟨above, p0, hkind, hrun⟩ := exists_of_bind_ok hrun
        cases hkind
        split at hrun
        · obtain ⟨id, p1, hmake, hrun⟩ := exists_of_bind_ok hrun
          obtain ⟨_, p2, hinstall, hrun⟩ := exists_of_bind_ok hrun
          obtain ⟨hfits, hp2, hid, hidpos, hkind⟩ :=
            fulfils_fill h hneat hshaped hlambda hfills hmake hinstall
          split at hrun
          · obtain ⟨-, hext, -⟩ :=
              (follows_completeFunction hp2 (stands_self (Nat.le_of_lt hidpos) hid) hidpos
                (hkind.trans hfunc) :
                Follows _ ⟨true, p2.size⟩ _ _ _ _ _).self hrun
            have hadds := tidy_completeFunction.adds hrun
            exact hfits.trans hbase hp2 hext (.inr .refl) hadds.fulfils
          · cases hrun
            exact hfits
        · obtain ⟨id, p1, hmake, hinstall⟩ := exists_of_bind_ok hrun
          have hparts := permits_kinds h.whole hneat hlambda
          have hgrants := hshaped.1
          rw [hfunc] at hparts hgrants
          exact (fulfils_anonymous h hfunc hneat.2 hfills hparts hmake hinstall hgrants hplaced).1

lemma fills_items (items : List Syntax) (hneat : Syntax.NeatAll items)
    (hshaped : Syntax.ShapedAll s items) : Fills s base items := by
  intro p q parent h hrun
  cases items with
  | nil =>
    cases hrun
    exact ⟨Adds.refl.fulfils, fun _ => (List.append_nil _).symm⟩
  | cons item rest =>
    have hkinds : kinds (item :: rest) = kinds [item] ++ kinds rest := kinds_append [item] rest
    obtain ⟨c, hc, hplace, hplaced⟩ := h.placed
    have hpermits := h.permits
    rw [hkinds] at hpermits ⊢
    have hitem : Accepts base parent [item] p := by
      rw [Admits, ← List.append_assoc] at hpermits
      exact ⟨h.whole, h.lt, h.pos, hpermits.of_append, h.rooted, c, hc, hplace, hplaced.1, trivial⟩
    obtain ⟨_, p1, hfirst, hrest⟩ := exists_of_bind_ok hrun
    obtain ⟨hp1, hext, hgains⟩ := installItem_eq_ok hitem hneat.1 hfirst
    have hfits := fulfils_installItem item hneat.1 hshaped.1 hitem hfirst
    have hlater : Accepts base parent rest p1 := ⟨hp1, Nat.lt_of_lt_of_le h.lt hext.size_le,
      h.pos, hgains.permits hext hp1.sound h.stands.spans hpermits,
      h.rooted.labels hfits.toLabels fun id hle hlt => (hfits.new id hle hlt).2, c, hc,
      hplace.labels hfits.toLabels h.lt, hplaced.2⟩
    obtain ⟨-, hext1⟩ := install_eq_ok hlater hneat.2 hrest
    obtain ⟨hfits1, hgains1⟩ := fills_items rest hneat.2 hshaped.2 hlater hrest
    exact ⟨hfits.trans h.whole.sound.pos hp1 hext1 (.inl h.lt) hfits1,
      hgains.trans (hext.kind parent h.lt) hgains1⟩

end

/-! ### Loading -/

lemma fulfils_build {funcs : Nat} {text : String} (h : p.Whole base) (hrooted : p.Rooted base)
    (hended : (Source.ofString text).Ended) (hfuncs : funcs < p.size) (hpos : base < funcs)
    (hkind : (p.node funcs).kind = .funcs) (hrun : build funcs text Parse.program p = .ok () q) :
    p.Fulfils (.ofString text) q := by
  let st : Setting := p.options.setting text
  obtain ⟨-, -, ⟨hneat, -⟩, hdone⟩ :=
    Parse.sound_program (Parse.lighter_self hended (show st.source = _ from rfl))
  let p1 : Project := { p with shown := (Parse.program st).notes.reverse ++ p.shown }
  have hsteps : (install funcs (Parse.program st).made >>= fun _ =>
      ((Parse.program st).outcome)) p1 = .ok () q := hrun
  obtain ⟨_, p2, hinstall, houtcome⟩ := exists_of_bind_ok hsteps
  obtain ⟨hok, rfl⟩ : (Parse.program st).outcome = .ok () ∧ q = p2 := by
    cases hresult : (Parse.program st).outcome with
    | error failure =>
      rw [hresult] at houtcome
      cases houtcome
    | ok a =>
      rw [hresult] at houtcome
      cases houtcome
      exact ⟨rfl, rfl⟩
  obtain ⟨⟨hplaced, hshaped⟩, -⟩ := hdone () hok
  have hadds : p.Adds p1 := .of_nodes_eq rfl
  have hplace := hrooted funcs (Nat.le_of_lt hpos) hfuncs hkind
  have hp1 : Accepts base funcs (Parse.program st).made p1 := by
    refine ⟨h.of_nodes_eq rfl rfl, hfuncs, hpos, ?_, hrooted.labels hadds.toLabels
      fun id hle hlt => absurd hlt (Nat.not_lt.2 hle), 0, Int.le_rfl,
      hplace.labels hadds.toLabels hfuncs, hplaced⟩
    rw [Admits, show (p1.node funcs).kind = .funcs from hkind]
    exact fun _ _ => rfl
  exact hadds.trans_fulfils (fills_items _ hneat hshaped hp1 hinstall).1

end Edit

namespace Project

variable {q r : Project} {base : Nat} {text : String}

/-- A program with its text, and the part of it with its functions. -/
structure Parted (base : Nat) (text : String) (q : Project) : Prop where
  program : (q.node base).site = (.program, 0, some 0, some text, none)
  funcs : (q.node (base + 2)).site = (.funcs, base, none, none, none)
  lt : base + 2 < q.size

namespace Parted

variable (h : q.Parted base text)

include h

lemma labels (hqr : q.Labels r) : r.Parted base text :=
  have hlt := h.lt
  ⟨(hqr.site base (by omega)).trans h.program, (hqr.site _ hlt).trans h.funcs,
    Nat.lt_of_lt_of_le hlt hqr.size_le⟩

lemma program_kind : (q.node base).kind = .program :=
  congrArg (·.1) h.program

lemma funcs_kind : (q.node (base + 2)).kind = .funcs :=
  congrArg (·.1) h.funcs

lemma funcs_parent : (q.node (base + 2)).parent = base :=
  congrArg (·.2.1) h.funcs

lemma place_program : q.Place base 0 :=
  .own (congrArg (·.2.2.1) h.program)

lemma place_funcs : q.Place (base + 2) 0 := by
  refine .above (congrArg (·.2.2.1) h.funcs) ?_ ?_
  · rw [h.funcs_parent]
    exact Nat.lt_add_of_pos_right (by decide)
  · rw [h.funcs_parent]
    exact h.place_program

end Parted

/-- A program with its parts and nothing in them. -/
structure Started (base : Nat) (text : String) (q : Project) : Prop extends Parted base text q where
  loose : ∀ id, base < id → id < q.size → id ≠ base + 2 → (q.node id).Loose

lemma Started.rooted (h : q.Started base text) : q.Rooted base := by
  intro id hle hlt hkind
  rcases Nat.eq_or_lt_of_le hle with rfl | hgt
  · cases hkind.symm.trans h.program_kind
  · by_cases hid : id = base + 2
    · exact hid ▸ h.place_funcs
    · have hinner := (h.loose id hgt hlt hid).2.1
      rw [hkind] at hinner
      cases hinner

end Project

namespace Edit

open Project

variable {p q : Project} {name text code : String}

lemma started_makeParts {funcs : Nat}
    (hrun : makeParts p.size name (p.make 0 (.ofProgram name text)) = .ok funcs q) :
    funcs = p.size + 2 ∧ q.Started p.size text := by
  let p1 := p.make 0 (.ofProgram name text)
  let p2 := p1.make p.size { kind := .includes, value := name, code? := some "" }
  let p3 := p2.make p.size { kind := .funcs, name, line? := some 1 }
  have hsize1 : p1.size = p.size + 1 := size_make
  have hsize2 : p2.size = p.size + 2 := by rw [size_make, hsize1]
  have hsize3 : p3.size = p.size + 3 := by rw [size_make, hsize2]
  obtain ⟨-, hprogram⟩ := labels_make (p := p) 0 (.ofProgram name text)
  have h12 : p1.Adds p2 := adds_make ⟨rfl, rfl, rfl, rfl⟩
  obtain ⟨h23, hfuncs⟩ := labels_make (p := p2) p.size { kind := .funcs, name, line? := some 1 }
  have hrest : funcs = p.size + 2 ∧ p3.Adds q := by
    rw [makeParts, make_bind, make_bind, hsize2] at hrun
    obtain ⟨rfl, rfl⟩ := EStateM.Result.ok.inj hrun
    exact ⟨rfl, (((adds_make ⟨rfl, rfl, rfl, rfl⟩).trans (adds_make ⟨rfl, rfl, rfl, rfl⟩)).trans
      (adds_make ⟨rfl, rfl, rfl, rfl⟩)).trans (adds_make ⟨rfl, rfl, rfl, rfl⟩)⟩
  obtain ⟨rfl, h3⟩ := hrest
  have h2 := h23.trans h3.toLabels
  have hlt := h3.size_le
  refine ⟨rfl, ⟨((h12.toLabels.trans h2).site _ (by omega)).trans hprogram, ?_, by omega⟩,
    fun id hle hid hne => ?_⟩
  · rw [hsize2] at hfuncs
    exact (h3.site _ (by omega)).trans hfuncs
  · by_cases hid3 : id < p3.size
    · exact h2.loose (by omega) (h12.new id (by omega) (by omega))
    · exact h3.new id (by omega) hid

/-- A program that has been loaded: its parts are made first, then what was read is put into
them. -/
lemma started_of_load_ok (hpos : 0 < p.size) (hload : load name code p = .ok () q) :
    ∃ r r' : Project, p.Annex name r' ∧ r.Started p.size (programText code) ∧
      r.Fulfils (.ofString (programText code)) r' ∧ r'.Stays q := by
  obtain ⟨shown, r', hannex, hfill, hstays⟩ := annex_of_load_ok hpos hload
  generalize hold : ({ p with text? := some (programText code), shown }) = old at hfill
  have hsize : old.size = p.size := by rw [← hold]; rfl
  rw [← hsize] at hfill hpos ⊢
  obtain ⟨funcs, r, hparts, hbuild⟩ := exists_of_bind_ok hfill
  have hended := ended_programText code
  have hwhole := whole_make name (programText code) hpos
  have hbegun := begun_make name (programText code) hpos
  obtain ⟨hr, -, hfuncs, hlt, hkind⟩ :=
    (follows_makeParts hwhole hbegun name : Follows _ ⟨true, _⟩ _ _ _ _ _).self hparts
  obtain ⟨rfl, hstarted⟩ := started_makeParts hparts
  exact ⟨r, r', hannex, hstarted,
    fulfils_build hr hstarted.rooted hended hfuncs.lt hlt hkind hbuild, hstays⟩

lemma size_le_loads {programs : List (String × String)} (hpos : 0 < p.size)
    (hrun : (programs.forM fun program => load program.1 program.2) p = .ok () q) :
    0 < q.size := by
  induction programs generalizing p with
  | nil =>
    cases hrun
    exact hpos
  | cons program programs ih =>
    obtain ⟨_, p1, hload, hrest⟩ := exists_of_bind_ok hrun
    obtain ⟨-, r, hannex, -, hstays⟩ := annex_of_load_ok hpos hload
    have hlt := hannex.whole.sound.pos
    rw [← hstays.size] at hlt
    exact ih (Nat.zero_lt_of_lt hlt) hrest

/-- Whatever has been loaded before, the nodes of a program that is loaded have the nodes below them
that their kinds promise, but for operands and things to be assigned to that may be missing; and all
of them are there where the text of the node has no gap. -/
theorem load_grants {fresh p q : Project} {earlier : List (String × String)} {name code : String}
    (hfresh : fresh.nodes = ({} : Project).nodes)
    (hearlier : (earlier.forM fun program => load program.1 program.2) fresh = .ok () p)
    (hload : load name code p = .ok () q) :
    ∀ id, p.size ≤ id → id < q.size → (q.node id).kind.promise.holds true (q.kindsBelow id) = true ∧
      ((∀ cur ∈ (q.node id).cur?,
          ¬ (Source.ofString (programText code)).LacksAt (q.node id).kind cur) →
        (q.node id).kind.promise.holds false (q.kindsBelow id) = true) := by
  intro id hle hlt
  have hpos : 0 < fresh.size := by rw [size, hfresh]; exact Nat.one_pos
  obtain ⟨r, r', -, hstarted, hfits, hstays⟩ :=
    started_of_load_ok (size_le_loads hpos hearlier) hload
  have hgrants : (Source.ofString (programText code)).Grants (q.node id).kind (q.node id).cur?
      (q.kindsBelow id) := by
    have hlabels := hstays.labels
    have hkinds : q.kindsBelow id = r'.kindsBelow id := by
      rw [kindsBelow, hstays.children]
      exact List.map_congr_left fun c _ => congrArg (·.1) (hstays.site c)
    rw [hstays.size] at hlt
    rw [hkinds, hlabels.kind hlt, hlabels.cur hlt]
    by_cases hid : id < r.size
    · refine Source.grants_any ?_ _ _
      rw [hfits.kind hid]
      rcases Nat.eq_or_lt_of_le hle with rfl | hgt
      · rw [hstarted.program_kind]
        rfl
      · by_cases hfuncs : id = p.size + 2
        · rw [hfuncs, hstarted.funcs_kind]
          rfl
        · exact (hstarted.loose id hgt hid hfuncs).1
    · exact (hfits.new id (Nat.not_lt.1 hid) hlt).1
  rcases hgrants with hfull | ⟨hgaps, cur, hcur, hgap⟩
  · exact ⟨Promise.holds_of_full hfull, fun _ => hfull⟩
  · exact ⟨hgaps, fun hnone => absurd hgap (hnone cur hcur)⟩

/-- Below a sum and below its second operand, a negated name, nothing is missing. -/
theorem load_grants_sample : ∃ q, load "unamed" "a+-b\n" {} = .ok () q ∧
    ∀ id, ({} : Project).size ≤ id → id < q.size →
      (q.node id).kind.promise.holds true (q.kindsBelow id) = true ∧
      ((∀ cur ∈ (q.node id).cur?,
          ¬ (Source.ofString (programText "a+-b\n")).LacksAt (q.node id).kind cur) →
        (q.node id).kind.promise.holds false (q.kindsBelow id) = true) := by
  have hloads : (load "unamed" "a+-b\n").passes {} (fun _ _ => true) = true := by decide +kernel
  have hearlier : ((([] : List (String × String)).forM fun program =>
      load program.1 program.2) : Edit Unit) {} = .ok () {} := rfl
  obtain ⟨⟨⟩, q, hrun, -⟩ := exists_of_passes hloads
  exact ⟨q, hrun, load_grants rfl hearlier hrun⟩

/-- Of a name with a dot and no field, a statement is made with nothing below it. -/
theorem load_fieldless : ∃ q, load "unamed" "a.\n" {} = .ok () q ∧
    ∃ id < q.size, (q.node id).kind = .statement ∧ q.kindsBelow id = [] := by
  have hloads : (load "unamed" "a.\n").passes {} (fun _ q => (List.range q.size).any fun id =>
      (q.node id).kind == .statement && q.kindsBelow id == []) = true := by decide +kernel
  obtain ⟨⟨⟩, q, hrun, hany⟩ := exists_of_passes hloads
  obtain ⟨id, hmem, hid⟩ := List.any_eq_true.1 hany
  rw [Bool.and_eq_true, beq_iff_eq, beq_iff_eq] at hid
  exact ⟨q, hrun, id, List.mem_range.1 hmem, hid⟩

end Edit

end ArmaGen
