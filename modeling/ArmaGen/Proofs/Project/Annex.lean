import ArmaGen.Proofs.Project.Tidy
import ArmaGen.Proofs.Project.View

/-!
# A program is put beside the others

Whatever is built into a program that has been added to a project stays within that program, so that
the rest of the project is as it was (`Project.Annex`), also where building fails on the way.
-/

namespace ArmaGen

open List

namespace Project

variable {p q : Project} {id base : Nat} {name text : String}

/-- From a node on a project is in order, and no node is left out. -/
abbrev Whole (base : Nat) (p : Project) : Prop :=
  p.Sheds (.whole base) p

lemma stands_self (hle : base ≤ id) (hlt : id < p.size) : p.Stands (.whole base) id id :=
  ⟨⟨hle, hlt⟩, rfl, (rank_none id).symm⟩

lemma whole_make (name text : String) (hpos : 0 < p.size) :
    (p.make 0 (.ofProgram name text)).Whole p.size := by
  have hnode : (p.make 0 (.ofProgram name text)).node p.size = .ofProgram name text :=
    node_make_new _ hpos
  have hsize : (p.make 0 (.ofProgram name text)).size = p.size + 1 := size_make
  have honly : ∀ id, (p.make 0 (.ofProgram name text)).Spans (.whole p.size) id →
      id = p.size := by
    rintro id ⟨hle : p.size ≤ id, hlt⟩
    omega
  refine ⟨nofun, ⟨?_, ?_, fun id hid hkind => ?_, fun id (hle : p.size < id) hlt => by omega,
    fun id hid c hc => ?_, fun id hid => ?_, fun id hid d hd => ?_, fun id hid d hd => ?_,
    fun id hid => ?_⟩, (rank_none _).symm, fun id _ _ => by rw [rank_none, renumber_none]⟩
  all_goals try (obtain rfl := honly id hid)
  · exact hsize ▸ Nat.lt_succ_self _
  · rw [if_neg (Nat.ne_of_gt hpos), hnode]
    exact ⟨rfl, rfl⟩
  · rw [hnode] at hkind
    cases hkind
  · rw [hnode] at hc
    cases hc
  · rw [hnode]
    rfl
  · rw [hnode] at hd
    cases hd
  · rw [hnode] at hd
    cases hd
  · rw [kindsBelow, hnode]
    exact permits_nil _

/-- A project and one program more, whose nodes are found from each other only. -/
structure Annex (p : Project) (name : String) (q : Project) : Prop where
  whole : q.Whole p.size
  settings : q.settings = p.settings
  kept : ∀ id, id ≠ 0 → id < p.size → q.node id = p.node id
  root : q.node 0 = { p.node 0 with children := (p.node 0).children ++ [p.size] }
  listing : (q.node p.size).listing = (name, none)

lemma Alters.annex (hpos : 0 < p.size) (hq : q.Whole p.size)
    (h : (p.make 0 (.ofProgram name text)).Alters (.whole p.size) q) : p.Annex name q where
  whole := hq
  settings := h.settings
  kept id hne hlt := by rw [h.old id hlt, node_make_of_ne hlt hne]
  root := by rw [h.old 0 hpos, node_make_parent hpos]
  listing := by
    rw [h.top hpos, node_make_new _ hpos]
    rfl

end Project

namespace Edit

open Project

variable {p q : Project} {name code text : String}

section

variable {α : Type} {cut : Cut} {g : Project.Growth} {m : Edit α}
  {R : Project → α → α → Prop} (h : Follows cut g p p m m R)

include h

lemma Follows.self {a : α} (hrun : m p = .ok a q) :
    q.Sheds cut q ∧ p.Extends cut g q ∧ R q a a := by
  unfold Follows at h
  rwa [hrun] at h

end

/-- What is put into a program that has been added. -/
def fillProgram (program : NodeId) (name text : String) : Edit Unit :=
  makeParts program name >>= fun funcs => build funcs text Parse.program

lemma begun_make (name text : String) (hpos : 0 < p.size) :
    Begun (.whole p.size) [] p.size p.size (p.make 0 (.ofProgram name text)) := by
  have hnode := node_make_new (.ofProgram name text) hpos
  refine ⟨stands_self .refl (whole_make name text hpos).sound.pos, ?_, ?_⟩
  · rw [hnode]
    rfl
  · rw [kindsBelow, hnode]
    rfl

lemma follows_fillProgram (name : String) (hpos : 0 < p.size)
    (hended : (Source.ofString text).Ended) :
    Follows (.whole p.size) ⟨true, p.size⟩ (p.make 0 (.ofProgram name text))
      (p.make 0 (.ofProgram name text)) (fillProgram p.size name text)
      (fillProgram p.size name text) fun _ a a' => a = a' := by
  have hdrops : ∀ st : Setting, st.drops st = fun _ => false := by
    intro st
    funext kind
    cases kind <;> first | rfl | exact Bool.and_not_self _
  exact follows_buildParts (whole_make name text hpos) (fun h => h) (fun h => h) (hdrops _) hended
    (begun_make name text hpos) name

/-- Loading adds a program to a project. -/
lemma annex_of_load (hpos : 0 < p.size) (name code : String) :
    ∃ shown, let old : Project := { p with text? := some (programText code), shown }
      (∃ q, p.Annex name q ∧ fillProgram p.size name (programText code)
          (old.make 0 (.ofProgram name (programText code))) = .ok () q ∧
        load name code p = findUnassigned name q) ∨
      ∃ failure q, p.Annex name q ∧ load name code p = .error failure q := by
  obtain ⟨shown, hload⟩ := exists_load_eq name code p
  refine ⟨shown, ?_⟩
  intro old
  have hfollows := follows_fillProgram (p := old) name hpos (ended_programText code)
  have hannex : ∀ {q : Project}, old.Annex name q → p.Annex name q := fun h =>
    ⟨h.whole, h.settings, h.kept, h.root, h.listing⟩
  have hrun : load name code p = (fillProgram p.size name (programText code) >>= fun _ =>
      findUnassigned name) (old.make 0 (.ofProgram name (programText code))) := by
    rw [hload, makeProgram_eq_bind, bind_assoc, make_bind, fillProgram, bind_assoc]
    rfl
  rw [hrun]
  cases hfill : fillProgram p.size name (programText code)
      (old.make 0 (.ofProgram name (programText code))) with
  | ok _ q =>
    obtain ⟨hq, hext, -⟩ := hfollows.self hfill
    exact .inl ⟨q, hannex (hext.toAlters.annex hpos hq), rfl, bind_ok hfill⟩
  | error failure q =>
    rw [Follows, show fillProgram old.size name (programText code) _ = _ from hfill] at hfollows
    obtain ⟨-, hq, halters⟩ := hfollows
    exact .inr ⟨failure, q, hannex (halters.annex hpos hq), bind_error hfill⟩

end Edit

/-! ### Names that nothing assigns -/

/-- All nodes are where they were, with the same nodes below them. -/
structure Project.Stays (p q : Project) : Prop where
  size : q.size = p.size
  site : ∀ id, (q.node id).site = (p.node id).site
  children : ∀ id, (q.node id).children = (p.node id).children

namespace Project

variable {p q r : Project}

lemma Stays.refl (p : Project) : p.Stays p :=
  ⟨rfl, fun _ => rfl, fun _ => rfl⟩

lemma Stays.trans (h : p.Stays q) (h' : q.Stays r) : p.Stays r :=
  ⟨h'.size.trans h.size, fun id => (h'.site id).trans (h.site id),
    fun id => (h'.children id).trans (h.children id)⟩

lemma stays_update {id : Nat} {f : Node → Node}
    (hf : ∀ node, (f node).site = node.site ∧ (f node).children = node.children) :
    p.Stays (p.update id f) := by
  refine ⟨size_update, fun j => ?_, fun j => ?_⟩
  · exact apply_node_update fun node => (hf node).1
  · exact apply_node_update fun node => (hf node).2

end Project

namespace Edit

open Project

variable {p q : Project} {name code : String}

lemma exists_findUnassigned_stays (h : name ∈ p.namesBelow 0) :
    ∃ q, findUnassigned name p = .ok () q ∧ p.Stays q := by
  obtain ⟨i, hi⟩ := Option.isSome_iff_exists.mp (isSome_idxOf?.mpr h)
  have hlt := length_map _ ▸ (idxOf?_eq_some_iff.mp hi).1
  have hreserve : ∀ reserved ids, p.Stays (p.reserve reserved ids) :=
    reserve_induction .refl .trans fun _ _ => stays_update fun _ => ⟨rfl, rfl⟩
  exact ⟨_, findUnassigned_eq hi (getElem?_eq_getElem hlt),
    (hreserve _ _).trans (stays_update fun _ => ⟨rfl, rfl⟩)⟩

lemma mem_names_of_annex (h : p.Annex name q) : name ∈ q.namesBelow 0 := by
  refine mem_map.2 ⟨p.size, ?_, congrArg Prod.fst h.listing⟩
  rw [h.root]
  exact mem_append_right _ (mem_singleton.2 rfl)

lemma annex_of_load_ok (hpos : 0 < p.size) (hload : load name code p = .ok () q) :
    ∃ shown r, let old : Project := { p with text? := some (programText code), shown }
      p.Annex name r ∧ fillProgram p.size name (programText code)
          (old.make 0 (.ofProgram name (programText code))) = .ok () r ∧ r.Stays q := by
  obtain ⟨shown, ⟨r, hr, hfill, hrun⟩ | ⟨failure, r, -, hrun⟩⟩ := annex_of_load hpos name code
  · obtain ⟨q', hfind, hstays⟩ := exists_findUnassigned_stays (mem_names_of_annex hr)
    rw [hload, hfind] at hrun
    cases hrun
    exact ⟨shown, r, hr, hfill, hstays⟩
  · rw [hload] at hrun
    cases hrun

lemma annex_of_load_error {failure : Failure} (hpos : 0 < p.size)
    (hload : load name code p = .error failure q) : p.Annex name q := by
  obtain ⟨shown, ⟨r, hr, -, hrun⟩ | ⟨failure', r, hr, hrun⟩⟩ := annex_of_load hpos name code
  · obtain ⟨q', hfind, -⟩ := exists_findUnassigned_stays (mem_names_of_annex hr)
    rw [hload, hfind] at hrun
    cases hrun
  · rw [hload] at hrun
    cases hrun
    exact hr

/-! ### Loads that fail -/

variable {index : Nat} {names : List String}

lemma unknowns_eq {id : Nat} (h : (p.node 0).children[index]? = some id) :
    unknowns index p = match (p.node id).unassigned? with
      | some names => .ok names p
      | none => .error .noAttribute p := by
  rw [unknowns, bind_ok (child_natCast_eq h), node_bind]
  cases (p.node id).unassigned? <;> rfl

lemma exists_of_unknowns_eq_ok (h : unknowns index p = .ok names p) :
    ∃ id < p.size, (p.node 0).children[index]? = some id ∧
      (p.node id).unassigned? = some names := by
  cases hchild : (p.node 0).children[index]? with
  | none =>
    have hlength : ((p.node 0).children.length : Int) ≤ index :=
      Int.ofNat_le.2 (getElem?_eq_none_iff.1 hchild)
    have hfails : child root index p = .error (.childRange (p.node 0).kind.name index) p := by
      rw [child, node_bind]
      simp only [if_pos hlength]
      rfl
    rw [unknowns, bind_error hfails] at h
    cases h
  | some id =>
    rw [unknowns_eq hchild] at h
    cases hnames : (p.node id).unassigned? with
    | none =>
      rw [hnames] at h
      cases h
    | some others =>
      rw [hnames] at h
      cases h
      refine ⟨id, ?_, rfl, hnames⟩
      refine Nat.not_le.1 fun hle => ?_
      rw [node_of_size_le hle] at hnames
      cases hnames

lemma unknowns_of_annex (h : p.Annex name q)
    (hunknowns : unknowns index p = .ok names p) : unknowns index q = .ok names q := by
  obtain ⟨id, hlt, hchild, hnames⟩ := exists_of_unknowns_eq_ok hunknowns
  have hchild' : (q.node 0).children[index]? = some id := by
    rw [h.root]
    exact getElem?_append_left (List.getElem?_eq_some_iff.1 hchild).1 ▸ hchild
  have hnames' : (q.node id).unassigned? = some names := by
    by_cases hid : id = 0
    · rw [hid, h.root]
      exact hid ▸ hnames
    · rw [h.kept id hid hlt, hnames]
  rw [unknowns_eq hchild', hnames']

/-- **A load that fails leaves an unfinished program behind, and nothing else.** The project gets
one more node below it, the program of that name; whatever else is new stands below this program.
All other nodes, the settings and the unknown names of the other programs are as they were; the
program that is left has none. -/
theorem load_leaves_unfinished {failure : Failure} (hpos : 0 < p.size)
    (hload : load name code p = .error failure q) :
    q.node root = { p.node root with children := (p.node root).children ++ [p.size] } ∧
    (∀ id, id ≠ root → id < p.size → q.node id = p.node id) ∧
    ((q.node p.size).kind = .program ∧ (q.node p.size).name = name) ∧
    (∀ id, p.size < id → id < q.size → p.size ≤ (q.node id).parent ∧ (q.node id).parent < id) ∧
    (q.options = p.options ∧ q.configured = p.configured ∧ q.depth = p.depth ∧
      q.directory = p.directory) ∧
    (∀ (index : Nat) (names : List String), unknowns index p = .ok names p →
      unknowns index q = .ok names q) ∧
    unknowns (p.node root).children.length q = .error .noAttribute q := by
  have hq : p.Annex name q := annex_of_load_error hpos hload
  obtain ⟨hname, hnone⟩ := Prod.mk.inj hq.listing
  have hkind := hq.whole.sound.top.1
  rw [if_neg (Nat.ne_of_gt hpos)] at hkind
  have hlast : (q.node root).children[(p.node root).children.length]? = some p.size := by
    rw [hq.root]
    exact List.getElem?_concat_length
  refine ⟨hq.root, hq.kept, ⟨hkind, hname⟩, fun id hle hlt =>
    (hq.whole.sound.parent id hle hlt).1, ?_, fun index names => unknowns_of_annex hq, ?_⟩
  · simpa [settings] using hq.settings
  · rw [unknowns_eq hlast, hnone]

/-- After a program that is loaded comes one with something else than an expression in it. -/
theorem load_leaves_unfinished_sample : ∃ p q failure, load "unamed" "b\n" {} = .ok () p ∧
    0 < p.size ∧ load "unamed" "x = $\n" p = .error failure q ∧
    q.node root = { p.node root with children := [1, p.size] } ∧
    (∀ id, id ≠ root → id < p.size → q.node id = p.node id) ∧
    unknowns 0 q = .ok ["b"] q ∧ unknowns 1 q = .error .noAttribute q := by
  have hruns : (load "unamed" "b\n").passes {} (fun _ p => (p.node 0).children == [1] &&
      (p.node 1).unassigned? == some ["b"] && decide (0 < p.size) &&
      !(load "unamed" "x = $\n").passes p fun _ _ => true) = true := by decide +kernel
  obtain ⟨⟨⟩, p, hfirst, htest⟩ := exists_of_passes hruns
  simp only [Bool.and_eq_true, beq_iff_eq, decide_eq_true_iff, Bool.not_eq_true'] at htest
  obtain ⟨⟨⟨hroot, hnames⟩, hpos⟩, hfails⟩ := htest
  cases hsecond : load "unamed" "x = $\n" p with
  | ok _ q =>
    rw [passes, hsecond] at hfails
    cases hfails
  | error failure q =>
    obtain ⟨hq, hkept, -, -, -, hunknowns, hnone⟩ := load_leaves_unfinished hpos hsecond
    have hunknowns₀ : unknowns (0 : Nat) p = .ok ["b"] p := by
      rw [unknowns_eq (show (p.node 0).children[0]? = some 1 by rw [hroot]; rfl), hnames]
    rw [hroot] at hq hnone
    exact ⟨p, q, failure, hfirst, hpos, hsecond, hq, hkept, hunknowns 0 ["b"] hunknowns₀, hnone⟩

/-- A project is not as it was after a load that failed. -/
theorem load_error_changes : ∃ failure q, load "unamed" "x = $\n" {} = .error failure q ∧
    (({} : Project).node root).children = [] ∧ (q.node root).children = [1] := by
  have hfails : (match load "unamed" "x = $\n" {} with
      | .ok _ _ => none
      | .error _ q => some (q.node root).children) = some [1] := by decide +kernel
  cases hrun : load "unamed" "x = $\n" {} with
  | ok _ q =>
    rw [hrun] at hfails
    cases hfails
  | error failure q =>
    rw [hrun] at hfails
    exact ⟨failure, q, rfl, rfl, Option.some.inj hfails⟩

end Edit

end ArmaGen
