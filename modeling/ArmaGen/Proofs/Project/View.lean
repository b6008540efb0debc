import ArmaGen.Proofs.Project.Place
import ArmaGen.Proofs.Project.Shed.Load

/-!
# Trees as they are seen

A `View` of a project shows of each node its kind, name and value, its line, its position and its
text (`Project.exists_view_eq`). A program that is loaded with and without its comments is seen the
same way, apart from the comments (`Edit.load_without_comments`). With and without the display of
progress it is seen the same way apart from hints for loops (`Edit.load_without_display`).
-/

namespace ArmaGen

/-! ### Views -/

/-- What is seen of a node and of the nodes below it. -/
inductive View where
  | node (kind : Kind) (name value : String) (line cur : Int) (code : String) (below : List View)

namespace View

def kind : View → Kind
  | .node kind .. => kind

mutual

/-- The view without the nodes of some kinds below its top. -/
def without (drops : Kind → Bool) : View → View
  | .node kind name value line cur code below =>
    .node kind name value line cur code (withoutAll drops below)

def withoutAll (drops : Kind → Bool) : List View → List View
  | [] => []
  | view :: rest =>
    if drops view.kind then withoutAll drops rest else without drops view :: withoutAll drops rest

end

mutual

/-- Whether a node of some kinds is below the top. -/
def shows (wanted : Kind → Bool) : View → Bool
  | .node _ _ _ _ _ _ below => showsAny wanted below

def showsAny (wanted : Kind → Bool) : List View → Bool
  | [] => false
  | view :: rest => wanted view.kind || shows wanted view || showsAny wanted rest

end

variable {drops : Kind → Bool}

lemma length_withoutAll_le (drops : Kind → Bool) (views : List View) :
    (withoutAll drops views).length ≤ views.length := by
  induction views with
  | nil => exact .refl
  | cons view rest ih =>
    rw [withoutAll]
    split
    · exact Nat.le_succ_of_le ih
    · exact Nat.succ_le_succ ih

mutual

lemma without_eq_iff : ∀ view : View, view.without drops = view ↔ view.shows drops = false
  | .node kind name value line cur code below => by
    rw [without, shows, ← withoutAll_eq_iff below]
    simp

lemma withoutAll_eq_iff :
    ∀ views : List View, withoutAll drops views = views ↔ showsAny drops views = false
  | [] => by simp [withoutAll, showsAny]
  | view :: rest => by
    rw [withoutAll, showsAny]
    cases hdrop : drops view.kind with
    | true =>
      have hne : withoutAll drops rest ≠ view :: rest := by
        intro heq
        have hlength := length_withoutAll_le drops rest
        rw [heq, List.length_cons] at hlength
        omega
      simpa using hne
    | false => simp [without_eq_iff view, withoutAll_eq_iff rest]

end

end View

/-- The result of a computation, whatever it leaves behind. -/
def Edit.look {α : Type} (m : Edit α) (p : Project) : Except Failure α :=
  match m p with
  | .ok a _ => .ok a
  | .error failure _ => .error failure

namespace Project

/-- What is seen of a node and of the nodes below it down to depth `n`. -/
def viewSteps (p : Project) : Nat → Nat → Except Failure View
  | 0, _ => .error .endless
  | n + 1, id => do
    let line ← (Edit.line id).look p
    let cur ← (Edit.cur id).look p
    let code ← (Edit.code id).look p
    let below ← (p.node id).children.mapM (viewSteps p n)
    return .node (p.node id).kind (p.node id).name (p.node id).value line cur code below

/-- What is seen of a project. -/
def view (p : Project) : Except Failure View :=
  p.viewSteps (p.size + 1) 0

end Project

/-! ### Places -/

lemma Edit.Finds.look_eq {α : Type} {p : Project} {x : Edit α} {a : α} (h : Finds p x p a) :
    x.look p = .ok a := by
  obtain ⟨q, hrun, -⟩ := h
  rw [look, hrun]

namespace Project

open Edit

variable {cut : Cut} {p p' : Project} {id id' : Nat}

lemma Sheds.parent_lt (h : p.Sheds cut p') (hid : p.Stands cut id id') (hpos : cut.base < id) :
    (p.node id).parent < id ∧ (p'.node id').parent < id' ∧
      p.Stands cut (p.node id).parent (p'.node id').parent := by
  have hstands := stands_parent h hid hpos
  obtain ⟨⟨-, hlt⟩, -, -⟩ := h.sound.parent id hpos hid.lt
  have hparent : (p'.node id').parent = p.rank cut (p.node id).parent := by
    rw [h.node_eq hid]
    rfl
  rw [hparent, hid.rank]
  exact ⟨hlt, rank_lt_rank hstands.keeps hlt, hstands⟩

lemma Sheds.exists_inherits {α : Type} {read : Node → Option α} (h : p.Sheds cut p')
    (hread : ∀ node, read (p.renumber cut node) = read node)
    (hroot : (read (p.node cut.base)).isSome = true) (hid : p.Stands cut id id') :
    ∃ a, p.Inherits read id a ∧ p'.Inherits read id' a := by
  induction id using Nat.strongRecOn generalizing id' with
  | ind id ih =>
    have hread' : read (p'.node id') = read (p.node id) := by rw [h.node_eq hid, hread]
    cases hfound : read (p.node id) with
    | some a => exact ⟨a, .own hfound, .own (hread'.trans hfound)⟩
    | none =>
      have hpos : cut.base < id := by
        refine Nat.lt_of_le_of_ne hid.spans.1 fun hbase => ?_
        rw [hbase, hfound] at hroot
        cases hroot
      obtain ⟨hlt, hlt', hstands⟩ := h.parent_lt hid hpos
      obtain ⟨a, ha, ha'⟩ := ih _ hlt hstands
      exact ⟨a, .above hfound hlt ha, .above (hread'.trans hfound) hlt' ha'⟩

section

variable (h : p.Sheds cut p') (hbase : cut.base = 0) (hplaced : p.Placed)

include h hbase hplaced

lemma Sheds.exists_place (hid : p.Stands cut id id') : ∃ c, p.Place id c ∧ p'.Place id' c :=
  h.exists_inherits (fun _ => rfl) (hbase ▸ hplaced.1) hid

lemma Sheds.exists_code (hid : p.Stands cut id id') :
    ∃ code, p.Inherits (·.code?) id code ∧ p'.Inherits (·.code?) id' code :=
  h.exists_inherits (fun _ => rfl) (hbase ▸ hplaced.2) hid

lemma Sheds.exists_onLine (hid : p.Stands cut id id') :
    ∃ line, p.OnLine id line ∧ p'.OnLine id' line := by
  induction id using Nat.strongRecOn generalizing id' with
  | ind id ih =>
    have hown : (p'.node id').ownLine? = (p.node id).ownLine? := by
      rw [h.node_eq hid]
      rfl
    cases hfound : (p.node id).ownLine? with
    | some line => exact ⟨line, .own hfound, .own (hown.trans hfound)⟩
    | none =>
      have hpos : 0 < id := by
        refine Nat.pos_of_ne_zero fun hzero => ?_
        unfold Node.ownLine? at hfound
        rw [hzero, (h.sound.root hbase).1] at hfound
        split at hfound <;> cases hfound
      obtain ⟨hlt, hlt', hstands⟩ := h.parent_lt hid (hbase ▸ hpos)
      obtain ⟨line, hline, hline'⟩ := ih _ hlt hstands
      obtain ⟨above, habove, habove'⟩ := h.exists_place hbase hplaced hstands
      obtain ⟨cur, hcur, hcur'⟩ := h.exists_place hbase hplaced hid
      obtain ⟨e, e', he, -, -, hprogram, hprogram'⟩ :=
        enclosing_eq (fun kind => kind == .program || kind == .project) rfl h
          (Nat.lt_succ_of_lt hid.lt) (Nat.lt_succ_of_lt (h.lt_size hid)) hpos hid
      obtain ⟨code, hcode, hcode'⟩ := h.exists_code hbase hplaced he
      exact ⟨_, .above hfound hlt hline habove hcur hprogram he.lt hcode,
        .above (hown.trans hfound) hlt' hline' habove' hcur' hprogram' (h.lt_size he) hcode'⟩

end

end Project

/-! ### Views of projects without some nodes -/

namespace Project

open Edit

variable {cut : Cut} {p p' : Project} {id id' : Nat}

variable {base : Nat}

lemma rank_none (id : Nat) : p.rank (.whole base) id = id := by
  induction id with
  | zero => rfl
  | succ id ih => rw [rank, ih]; rfl

lemma renumber_none (node : Node) : p.renumber (.whole base) node = node := by
  have hrank : p.rank (.whole base) = fun id => id := funext rank_none
  have hkeeps : p.keeps (.whole base) = fun _ => true := rfl
  have hfilter : node.children.filter (fun _ => true) = node.children :=
    List.filter_eq_self.2 fun _ _ => rfl
  simp [renumber, hrank, hkeeps, hfilter]

lemma Sheds.self (h : p.Sheds cut p') : p.Sheds (.whole cut.base) p where
  asides _ hdrop := by cases hdrop
  sound := by
    obtain ⟨hpos, hroot, honly, hparent, hchild, hgroup, hdeclare, hreference, hpermits⟩ := h.sound
    refine ⟨hpos, hroot, honly, fun id hid hlt => ?_, hchild, hgroup, fun id hid d hd => ?_,
      fun id hid d hd => ?_, fun id hid => ?_⟩
    · obtain ⟨hlt, hmem, -⟩ := hparent id hid hlt
      exact ⟨hlt, hmem, rfl⟩
    · exact ⟨(hdeclare id hid d hd).1, rfl⟩
    · exact ⟨(hreference id hid d hd).1, rfl⟩
    · have hbelow := hpermits id hid
      revert hbelow
      cases (p.node id).kind <;> intro hbelow <;> first | exact hbelow | exact fun _ _ => rfl
  size := (rank_none p.size).symm
  node id _ _ := by rw [rank_none, renumber_none]

lemma mapM_kept (visit visit' : Nat → Except Failure View) {ids : List Nat}
    (hkeeps : ∀ id ∈ ids, p.keeps cut id = true → ∃ v, v.kind = (p.node id).kind ∧
      visit id = .ok v ∧ visit' (p.rank cut id) = .ok (v.without cut.drops))
    (hdrop : ∀ id ∈ ids, p.keeps cut id = false → ∃ v, v.kind = (p.node id).kind ∧
      visit id = .ok v) :
    ∃ vs, ids.mapM visit = .ok vs ∧
      (p.kept cut ids).mapM visit' = .ok (View.withoutAll cut.drops vs) := by
  induction ids with
  | nil => exact ⟨[], rfl, rfl⟩
  | cons id ids ih =>
    obtain ⟨vs, hvs, hvs'⟩ := ih (fun i hi => hkeeps i (.tail _ hi))
      fun i hi => hdrop i (.tail _ hi)
    have hmem : id ∈ id :: ids := .head _
    cases hid : p.keeps cut id with
    | true =>
      obtain ⟨v, hkind, hv, hv'⟩ := hkeeps id hmem hid
      refine ⟨v :: vs, by rw [List.mapM_cons, hv, hvs]; rfl, ?_⟩
      rw [keeps, Bool.not_eq_true'] at hid
      rw [kept_cons_of_keeps (by rw [keeps, hid]; rfl), List.mapM_cons, hv', hvs', View.withoutAll,
        hkind, hid]
      rfl
    | false =>
      obtain ⟨v, hkind, hv⟩ := hdrop id hmem hid
      refine ⟨v :: vs, by rw [List.mapM_cons, hv, hvs]; rfl, ?_⟩
      rw [kept_cons_of_drops hid, hvs', View.withoutAll, hkind]
      rw [keeps, Bool.not_eq_false'] at hid
      rw [hid]
      rfl

section

variable (h : p.Sheds cut p') (hbase : cut.base = 0) (hplaced : p.Placed)

include h hbase hplaced

/-- What is seen of a node on both sides, if those that are dropped are seen on theirs. -/
lemma viewSteps_eq (hdropped : ∀ n c, c < p.size → p.size ≤ n + c → p.keeps cut c = false →
      ∃ v, v.kind = (p.node c).kind ∧ p.viewSteps n c = .ok v)
    (hid : p.Stands cut id id') {n n' : Nat} (hn : p.size ≤ n + id) (hn' : p'.size ≤ n' + id') :
    ∃ v, v.kind = (p.node id).kind ∧ p.viewSteps n id = .ok v ∧
      p'.viewSteps n' id' = .ok (v.without cut.drops) := by
  induction n generalizing id id' n' with
  | zero => exact absurd hid.lt (by omega)
  | succ n ih =>
    obtain ⟨n', rfl⟩ : ∃ k, n' = k + 1 := ⟨n' - 1, by have := h.lt_size hid; omega⟩
    have hlt := hid.lt
    have hlt' := h.lt_size hid
    obtain ⟨line, hline, hline'⟩ := h.exists_onLine hbase hplaced hid
    obtain ⟨cur, hcur, hcur'⟩ := h.exists_place hbase hplaced hid
    obtain ⟨code, hcode, hcode'⟩ := h.exists_code hbase hplaced hid
    obtain ⟨below, hbelow, hbelow'⟩ := mapM_kept (p.viewSteps n) (p'.viewSteps n')
      (fun c hc hkeeps => by
        obtain ⟨hlt, hcsize, -⟩ := h.sound.child id hid.spans c hc
        have hrank : id' < p.rank cut c := hid.rank ▸ rank_lt_rank hid.keeps hlt
        exact ih ⟨h.sound.spans_child hid.spans hc, hkeeps, rfl⟩ (by omega) (by omega))
      fun c hc hdrop => by
        obtain ⟨hlt, hcsize, -⟩ := h.sound.child id hid.spans c hc
        exact hdropped n c hcsize (by omega) hdrop
    refine ⟨.node (p.node id).kind (p.node id).name (p.node id).value line cur code below, rfl,
      ?_, ?_⟩
    · rw [viewSteps, (finds_line (.refl p) hlt hline).look_eq,
        (finds_cur (.refl p) hlt hcur).look_eq,
        (finds_code (.refl p) hlt hcode).look_eq]
      rw [hbelow]
      rfl
    · rw [viewSteps, (finds_line (.refl p') hlt' hline').look_eq,
        (finds_cur (.refl p') hlt' hcur').look_eq, (finds_code (.refl p') hlt' hcode').look_eq,
        h.node_eq hid]
      show ((p.kept cut (p.node id).children).mapM (p'.viewSteps n') >>= _) = _
      rw [hbelow']
      rfl

lemma exists_viewSteps_eq (hid : id < p.size) {n : Nat} (hn : p.size ≤ n + id) :
    ∃ v, v.kind = (p.node id).kind ∧ p.viewSteps n id = .ok v := by
  obtain ⟨v, hkind, hv, -⟩ := viewSteps_eq h.self hbase hplaced
    (fun _ _ _ _ hdrop => by cases hdrop) ⟨⟨hbase ▸ Nat.zero_le _, hid⟩, rfl, rfl⟩ hn
    (show p.size ≤ p.size + _ by omega)
  exact ⟨v, hkind, hv⟩

/-- A project without some nodes is seen without them. -/
lemma Sheds.view_eq : ∃ v, p.view = .ok v ∧ p'.view = .ok (v.without cut.drops) := by
  obtain ⟨v, -, hv, hv'⟩ := viewSteps_eq h hbase hplaced
    (fun n c hc hn _ => exists_viewSteps_eq h hbase hplaced hc hn) (stands_root h hbase)
    (show p.size ≤ p.size + 1 + 0 by omega) (show p'.size ≤ p'.size + 1 + 0 by omega)
  exact ⟨v, hv, hv'⟩

end

end Project

/-! ### Programs that are loaded -/

/-- The kinds of comments. -/
def Kind.isComment : Kind → Bool
  | .lcomment | .bcomment | .ecomment => true
  | _ => false

namespace Edit

open Project

variable {cut : Cut} {p p' : Project}

lemma sheds_empty {drops : Kind → Bool} (hdrops : ∀ kind, drops kind = true → kind.isAside = true)
    (hp : p.nodes = ({} : Project).nodes) (hp' : p'.nodes = ({} : Project).nodes) :
    p.Sheds ⟨drops, 0⟩ p' := by
  have hnone : ∀ {id : Nat}, 0 < id → ¬ id < ({} : Project).size := fun hpos hlt =>
    absurd hlt (Nat.not_lt.2 hpos)
  have hzero : ∀ {id : Nat}, ({} : Project).Spans ⟨drops, 0⟩ id → id = 0 := fun hid =>
    Nat.eq_zero_of_not_pos fun hpos => hnone hpos hid.2
  have hkeeps : ({} : Project).keeps ⟨drops, 0⟩ 0 = true := by
    have hproject : drops .project = false :=
      Bool.eq_false_iff.2 fun hdrop => by cases hdrops _ hdrop
    show (!drops .project) = true
    rw [hproject]
    rfl
  suffices hempty : ({} : Project).Sheds ⟨drops, 0⟩ {} from hempty.of_nodes_eq hp hp'
  refine ⟨hdrops, ⟨Nat.one_pos, ⟨rfl, rfl⟩, fun id hid _ => hzero hid,
    fun id hpos hid => absurd hid (hnone hpos), fun id hid c hc => ?_, fun id hid => ?_,
    fun id hid d hd => ?_, fun id hid d hd => ?_, fun id hid => ?_⟩, ?_, fun id hid _ => ?_⟩
  all_goals try obtain rfl := hzero hid
  · cases hc
  · rfl
  · cases hd
  · cases hd
  · exact permits_nil _
  · show 1 = rank ⟨drops, 0⟩ {} 0 + if ({} : Project).keeps ⟨drops, 0⟩ 0 then 1 else 0
    rw [hkeeps]
    rfl
  · rfl

lemma exists_unknowns_eq (h : p.Sheds cut p') (hbase : cut.base = 0) {g : Nat}
    (hroot : (p.node 0).children = [g]) (hfound : (p.node g).unassigned?.isSome = true) :
    ∃ names, (unknowns 0).look p = .ok names ∧ (unknowns 0).look p' = .ok names := by
  obtain ⟨names, hnames⟩ := Option.isSome_iff_exists.1 hfound
  have hzero := stands_root h hbase
  have hkept := keeps_of_mem h hzero (by rw [(h.sound.root hbase).1]; decide)
  have hmem : g ∈ (p.node 0).children := by
    rw [hroot]
    exact List.mem_singleton_self g
  have hg := stands_child h hzero hkept hmem
  have hroot' : (p'.node 0).children = [p.rank cut g] := by
    rw [children_eq h hzero hkept, hroot]
    rfl
  have hlook : ∀ {q : Project} {g : Nat}, (q.node 0).children = [g] →
      (q.node g).unassigned? = some names → (unknowns 0).look q = .ok names := by
    intro q g hchildren hnames
    have hchild : child root 0 q = .ok g q := child_natCast_eq (by rw [hchildren]; rfl)
    have hrun : unknowns 0 q = .ok names q := by
      rw [unknowns, bind_ok hchild, node_bind, hnames]
      rfl
    rw [look, hrun]
  refine ⟨names, hlook hroot hnames, hlook hroot' ?_⟩
  rw [h.node_eq hg]
  exact hnames

/-- A program that is loaded under options that ask for less is seen the same way, apart from what
is left out. -/
lemma load_lighter (options options' : Options) (directory : Directory) (name code : String)
    (hcomments : options'.comments = true → options.comments = true)
    (hdisp : options'.disp = true → options.disp = true) :
    (∃ failure, (load name code).look { options, directory } = .error failure ∧
      (load name code).look { options := options', directory } = .error failure) ∨
    ∃ p p' view names, load name code { options, directory } = .ok () p ∧
      load name code { options := options', directory } = .ok () p' ∧ p.view = .ok view ∧
      p'.view = .ok (view.without ((options.setting "").drops (options'.setting ""))) ∧
      (unknowns 0).look p = .ok names ∧ (unknowns 0).look p' = .ok names := by
  have hsheds : Sheds ⟨(options.setting "").drops (options'.setting ""), 0⟩ { options, directory }
      { options := options', directory } :=
    sheds_empty Setting.isAside_of_drops rfl rfl
  have hload := follows_load hsheds hcomments hdisp rfl rfl name code
  unfold Follows at hload
  split at hload
  · next p p' hrun hrun' =>
    obtain ⟨hp, hextends, hfound⟩ := hload
    obtain ⟨g, hroot, hfound⟩ := hfound rfl
    obtain ⟨view, hview, hview'⟩ := hp.view_eq rfl (hextends.placed ⟨rfl, rfl⟩)
    obtain ⟨names, hnames, hnames'⟩ := exists_unknowns_eq hp rfl hroot hfound
    exact .inr ⟨_, _, view, names, hrun, hrun', hview, hview', hnames, hnames'⟩
  · next hrun hrun' =>
    exact .inl ⟨_, by rw [look, hrun], by rw [look, hrun', hload.1]⟩
  · exact hload.elim

/-- Without its comments a program is read the same way, apart from the comments. -/
theorem load_without_comments (options : Options) (directory : Directory) (name code : String) :
    (∃ failure,
      (load name code).look { options := { options with comments := true }, directory } =
        .error failure ∧
      (load name code).look { options := { options with comments := false }, directory } =
        .error failure) ∨
    ∃ p p' view names,
      load name code { options := { options with comments := true }, directory } = .ok () p ∧
      load name code { options := { options with comments := false }, directory } = .ok () p' ∧
      p.view = .ok view ∧ p'.view = .ok (view.without Kind.isComment) ∧
      (unknowns 0).look p = .ok names ∧ (unknowns 0).look p' = .ok names := by
  have hdrops : (Options.setting { options with comments := true } "").drops
      (Options.setting { options with comments := false } "") = Kind.isComment := by
    funext kind
    cases kind <;> first | rfl | exact Bool.and_not_self _
  rw [← hdrops]
  exact load_lighter _ _ directory name code (fun _ => rfl) fun h => h

/-- Without the display of progress a program is read the same way, apart from hints for loops. So
the display changes nothing exactly if there are no such hints. -/
theorem load_without_display (options : Options) (directory : Directory) (name code : String) :
    (∃ failure,
      (load name code).look { options := { options with disp := true }, directory } =
        .error failure ∧
      (load name code).look { options := { options with disp := false }, directory } =
        .error failure) ∨
    ∃ p p' view,
      load name code { options := { options with disp := true }, directory } = .ok () p ∧
      load name code { options := { options with disp := false }, directory } = .ok () p' ∧
      p.view = .ok view ∧ p'.view = .ok (view.without (· == .pragmaFor)) ∧
      (p'.view = p.view ↔ view.shows (· == .pragmaFor) = false) := by
  have hdrops : (Options.setting { options with disp := true } "").drops
      (Options.setting { options with disp := false } "") = (· == Kind.pragmaFor) := by
    funext kind
    cases kind <;> first | rfl | exact Bool.and_not_self _
  rcases load_lighter { options with disp := true } { options with disp := false } directory name
    code (fun h => h) (fun _ => rfl) with hfail | ⟨p, p', view, -, hrun, hrun', hview, hview', -⟩
  · exact .inl hfail
  · rw [hdrops] at hview'
    refine .inr ⟨p, p', view, hrun, hrun', hview, hview', ?_⟩
    rw [hview, hview', ← View.without_eq_iff]
    simp

end Edit

end ArmaGen
