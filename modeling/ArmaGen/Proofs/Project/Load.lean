import ArmaGen.Project.Load
import ArmaGen.Proofs.Project.Install
import ArmaGen.Proofs.Supplement.Table
import ArmaGen.Proofs.Syntax.Program

/-!
# Loading structured programs
-/

namespace ArmaGen

open List

open Project

/-- The project with a program that has no functions yet. -/
def Project.withProgram (p : Project) (name text : String) : Project :=
  ((((((p.make 0 { kind := .program, name, cur? := some 0, code? := some text }).make 1
    { kind := .includes, value := name, code? := some "" }).make 1
    { kind := .funcs, name, line? := some 1 }).make 1
    { kind := .inlines, name }).make 1
    { kind := .structs, name }).make 1
    { kind := .headers, name }).make 1
    { kind := .log, name }

/-- The first node of a program. -/
def Node.ofProgram (name text : String) : Node :=
  { kind := .program, name, cur? := some 0, code? := some text }

def Options.setting (options : Options) (text : String) : Setting :=
  { source := .ofString text, comments := options.comments, disp := options.disp }

lemma Project.options_make (p : Project) (id : NodeId) (node : Node) :
    (p.make id node).options = p.options :=
  rfl

namespace Edit

variable {α : Type} {p : Project} {id : Nat} {node : Node} {name text : String}

lemma make_bind {g : Nat → Edit α} : (make id node >>= g) p = g p.size (p.make id node) := rfl

lemma makeProgram_eq_bind (name text : String) : makeProgram name text =
    make 0 (.ofProgram name text) >>= fun program => makeParts program name := rfl

lemma options_of_makeParts {q : Project} {funcs : NodeId}
    (h : makeParts id name p = .ok funcs q) : q.options = p.options := by
  obtain ⟨-, rfl⟩ := EStateM.Result.ok.inj h
  simp

lemma options_of_makeProgram {q : Project} {funcs : NodeId}
    (h : makeProgram name text p = .ok funcs q) : q.options = p.options := by
  rw [makeProgram_eq_bind, make_bind] at h
  rw [options_of_makeParts h, options_make]

def loadSetting (p : Project) (code : String) : Setting :=
  { source := .ofString (programText code), comments := p.options.comments, disp := p.options.disp }

lemma makeProgram_eq (hsize : p.size = 1) :
    makeProgram name text p = .ok 3 (p.withProgram name text) := by
  simp only [makeProgram, makeParts, make_bind, size_make, hsize]
  rfl

end Edit

namespace Project

variable {p : Project} {name text : String}

lemma unruled_of_nodes_eq (h : p.nodes = ({} : Project).nodes) : p.Unruled := by
  intro id
  rw [node, h]
  rcases Nat.eq_zero_or_pos id with rfl | hid
  · rfl
  · simp [Nat.not_lt_of_ge hid]
    rfl

lemma Unruled.withProgram (h : p.Unruled) : (p.withProgram name text).Unruled := by
  iterate 7 refine Unruled.make ?_ rfl
  exact h

lemma options_withProgram : (p.withProgram name text).options = p.options := by
  simp [withProgram, options_make]

end Project

/-! ### Names that nothing assigns -/

lemma noteOccurrence_eq_put (name : String) (assigned : Bool) (names : Table Bool) :
    noteOccurrence name assigned names =
      names.put name ((names.get? name).getD false || assigned) := by
  induction names with
  | nil => rfl
  | cons first names ih =>
    obtain ⟨other, known⟩ := first
    rw [noteOccurrence, Table.put, Table.get?, lookup_cons]
    by_cases h : other = name
    · simp [h]
    · rw [if_neg (by simpa using h), if_neg (by simpa using h), ih, beq_false_of_ne (Ne.symm h)]
      rfl

namespace Project

variable {p : Project} {name : String} {ids : List NodeId} {id : NodeId}

/-- A node is a place where a name occurs. -/
def Names (p : Project) (name : String) (id : NodeId) : Prop :=
  (p.node id).kind.isName = true ∧ (p.node id).name = name

/-- Whether a node is a parameter or a declared variable. -/
def assigns (p : Project) (id : NodeId) : Bool :=
  (p.node (p.node id).parent).kind == .params || (p.node (p.node id).parent).kind == .declares

def noteNode (p : Project) (names : Table Bool) (id : NodeId) : Table Bool :=
  if (p.node id).kind.isName then noteOccurrence (p.node id).name (p.assigns id) names else names

lemma get?_occurrences_iff {names : Table Bool} :
    (ids.foldl p.noteNode names).get? name = some false ↔
      (names.get? name = some false ∨ names.get? name = none ∧ ∃ id ∈ ids, p.Names name id) ∧
        ∀ id ∈ ids, p.Names name id → p.assigns id = false := by
  induction ids generalizing names with
  | nil => simp
  | cons id ids ih =>
    simp only [foldl_cons, ih]
    by_cases hname : p.Names name id
    · have hput : (p.noteNode names id).get? name =
          some ((names.get? name).getD false || p.assigns id) := by
        rw [noteNode, if_pos hname.1, noteOccurrence_eq_put, Table.get?_put, hname.2, if_pos rfl]
      rw [hput]
      cases hget : names.get? name with
      | none => simp [hname]
      | some known => cases known <;> simp [hname]
    · have hput : (p.noteNode names id).get? name = names.get? name := by
        unfold noteNode
        split
        · next hkind =>
          rw [noteOccurrence_eq_put, Table.get?_put, if_neg fun h => hname ⟨hkind, h.symm⟩]
        · rfl
      simp [hput, hname]

/-- A name is assigned by nothing if no place where it occurs is a parameter or declared. -/
lemma mem_unassignedNames_iff : name ∈ unassignedNames p ids ↔
    (∃ id ∈ ids, p.Names name id) ∧ ∀ id ∈ ids, p.Names name id → p.assigns id = false := by
  have hnodup : ∀ names : Table Bool, (names.map Prod.fst).Nodup →
      ((ids.foldl p.noteNode names).map Prod.fst).Nodup := by
    induction ids with
    | nil => exact fun _ h => h
    | cons id _ ih =>
      intro names h
      refine ih _ ?_
      unfold noteNode
      split
      · rw [noteOccurrence_eq_put]
        exact Table.nodup_keys_put h
      · exact h
  have hmem : name ∈ unassignedNames p ids ↔ (name, false) ∈ ids.foldl p.noteNode [] := by
    show name ∈ (ids.foldl p.noteNode []).filterMap _ ↔ _
    simp
  rw [hmem, Table.mem_iff_get?_eq_some (hnodup [] nodup_nil), get?_occurrences_iff]
  simp [Table.get?]

/-- The project in which nodes of reserved names have the rules for these names. -/
def reserve (reserved : List String) : Project → List Nat → Project
  | p, [] => p
  | p, id :: ids =>
    reserve reserved (if reserved.contains (p.node id).name then
      p.update id fun node => { node with backend := .reserved } else p) ids

lemma reserve_induction {R : Project → Project → Prop} (hrefl : ∀ p, R p p)
    (htrans : ∀ {p q r}, R p q → R q r → R p r)
    (hupdate : ∀ p id, R p (p.update id fun node => { node with backend := .reserved }))
    (reserved : List String) (ids : List Nat) : R p (p.reserve reserved ids) := by
  induction ids generalizing p with
  | nil => exact hrefl p
  | cons id ids ih =>
    rw [reserve]
    split
    · exact htrans (hupdate p id) ih
    · exact ih

lemma backend_reserve_iff (reserved : List String) (hid : id < p.size) :
    ((p.reserve reserved ids).node id).backend = .reserved ↔
      (p.node id).backend = .reserved ∨ id ∈ ids ∧ (p.node id).name ∈ reserved := by
  induction ids generalizing p with
  | nil => simp [reserve]
  | cons j ids ih =>
    rw [reserve]
    split
    · next hname =>
      rw [ih (by rwa [size_update])]
      by_cases hj : id = j
      · subst hj
        simp [node_update_self hid, contains_iff_mem.1 hname]
      · simp [node_update_of_ne hj, hj]
    · next hname =>
      rw [ih hid]
      by_cases hj : id = j
      · subst hj
        simp [mt contains_iff_mem.2 hname]
      · simp [hj]

end Project

namespace Edit

variable {α : Type} {p : Project} {name : String}

lemma reserveNames_eq (reserved : List String) (ids : List Nat) :
    reserveNames reserved ids p = .ok () (p.reserve reserved ids) := by
  induction ids generalizing p with
  | nil => rfl
  | cons id ids ih =>
    rw [reserve, ← ih]
    show (if reserved.contains (p.node id).name = true then _ else _ : Edit Unit) p = _
    split <;> rfl

/-- The reserved names that nothing assigns get their rules, and the others are noted. -/
lemma findUnassigned_eq {program i : Nat} (hi : (p.namesBelow 0).idxOf? name = some i)
    (hprogram : (p.node 0).children[i]? = some program) :
    let ids := p.postorder false program
    let parts := (unassignedNames p ids).partition fun name => reservedNames.contains name
    findUnassigned name p = .ok () ((p.reserve parts.1 ids).update program fun node =>
      { node with unassigned? := some parts.2 }) := by
  rw [findUnassigned, names_bind, hi]
  refine bind_run (child_natCast_eq hprogram) ?_
  exact bind_ok (reserveNames_eq ..)

/-- Two functions, one with a call of `sum` and one with a variable of that name. -/
def sampleSum : String :=
  "function y = f(x)\ny = sum(x) ;\nend\nfunction sum = g(x)\nsum = x ;\nend\n"

lemma findUnassigned_first_eq (hroot : (p.node 0).children = [1]) (hname : (p.node 1).name = name) :
    let ids := p.postorder false 1
    let parts := (unassignedNames p ids).partition fun name => reservedNames.contains name
    findUnassigned name p = .ok () ((p.reserve parts.1 ids).update 1 fun node =>
      { node with unassigned? := some parts.2 }) :=
  findUnassigned_eq (i := 0) (by rw [Project.namesBelow, hroot, map_cons, hname]; simp)
    (by rw [hroot]; rfl)

variable {trees : List Syntax}

lemma exists_build_run {text : String} (id : Nat)
    (h : Parse.program.Yields (p.options.setting text) trees ()) :
    ∃ shown, build id text Parse.program p = install id trees { p with shown } := by
  obtain ⟨notes, hparse⟩ := h
  rw [Options.setting] at hparse
  refine ⟨notes.reverse ++ p.shown, ?_⟩
  show (displayAll _ >>= fun _ => install id _ >>= fun _ => _) p = _
  rw [hparse]
  show (install id trees >>= fun _ => pure ()) _ = _
  rw [bind_pure_unit]

lemma build_eq {text : String} (hp : p.Unruled) (hframe : p.Frame)
    (hparse : Parse.program.Yields (p.options.setting text) trees ())
    (htrees : ∀ tree ∈ trees, tree.IsFunc) (hchildren : (p.node 3).children = []) :
    ∃ p', build 3 text Parse.program p = .ok () p' ∧ p.Grows growing p' ∧
      p'.BearsAll 3 (p'.node 3).children (Syntax.outlines trees) := by
  obtain ⟨shown, hrun⟩ := exists_build_run 3 hparse
  have hshown : p.Grows growing { p with shown } := .of_nodes_eq rfl rfl
  obtain ⟨p', ids, hinstall, hgrows, _, hids, _, hos⟩ := installs_funcs htrees
    (p := { p with shown }) hp (hframe.grows hshown)
  refine ⟨p', hrun.trans hinstall, hshown.trans hgrows fun _ _ h => h, ?_⟩
  rw [hids]
  show p'.BearsAll 3 ((p.node 3).children ++ ids) _
  rwa [hchildren]

lemma modify_bind {g : Unit → Edit α} {f : Project → Project} :
    (modify f >>= g) p = g () (f p) := rfl

lemma exists_load_eq (name code : String) (p : Project) :
    ∃ shown, load name code p = (do
      build (← makeProgram name (programText code)) (programText code) Parse.program
      findUnassigned name) { p with text? := some (programText code), shown } := by
  show ∃ shown, (if p.options.disp = true then _ else _ : Edit Unit) p = _
  split
  · exact ⟨("loading " ++ name) :: p.shown, by simp [display, modify_bind]⟩
  · exact ⟨p.shown, by simp [modify_bind]⟩

lemma exists_build_eq (name : String) {text : String} (hsize : p.size = 1)
    (hroot : (p.node 0).kind = .project) (hchildren : (p.node 0).children = []) (hp : p.Unruled)
    (hparse : Parse.program.Yields (p.options.setting text) trees ())
    (htrees : ∀ tree ∈ trees, tree.IsFunc) :
    ∃ p', (do
        build (← makeProgram name text) text Parse.program
        findUnassigned name) p = .ok () p' ∧ p'.Frame ∧
      p'.Bears 3 (.node .funcs name "" (Syntax.outlines trees)) := by
  have hframe : (p.withProgram name text).Frame := by
    constructor <;> simp [withProgram, node_make, size_make, hsize, hroot, hchildren]
  have hname : ((p.withProgram name text).node 1).name = name := by
    simp [withProgram, node_make, size_make, hsize]
  have hfuncs : (p.withProgram name text).node 3 =
      { kind := .funcs, name, line? := some 1, parent := 1 } := by
    simp [withProgram, node_make, size_make, hsize]
  rw [← @options_withProgram p name text] at hparse
  obtain ⟨p2, hbuild, hgrows, hos⟩ := build_eq hp.withProgram hframe hparse htrees (by rw [hfuncs])
  have hlt : ∀ j < 8, j < (p.withProgram name text).size := fun j hj =>
    Nat.lt_of_lt_of_le hj hframe.size
  have hname2 : (p2.node 1).name = name := by
    rw [hgrows.name (hlt 1 (by decide)), hname]
  have hframe2 := hframe.grows hgrows
  obtain ⟨p3, hfind, hgrows3⟩ : ∃ p3, findUnassigned name p2 = .ok () p3 ∧
      p2.Grows (fun _ => False) p3 := by
    have hreserve : ∀ reserved ids, p2.Grows (fun _ => False) (p2.reserve reserved ids) :=
      reserve_induction (.refl _) (fun h h' => h.trans h' fun _ _ h => h)
        fun _ _ => grows_update fun _ => ⟨rfl, rfl⟩
    exact ⟨_, findUnassigned_first_eq hframe2.children_root hname2, (hreserve _ _).trans
      (grows_update fun _ => ⟨rfl, rfl⟩) fun _ _ h => h⟩
  refine ⟨p3, ?_, hframe2.grows (hgrows3.mono fun _ _ h => h.elim), ?_⟩
  · refine bind_run (makeProgram_eq hsize) ?_
    exact bind_run hbuild hfind
  · have h3 := hlt 3 (by decide)
    refine Project.Bears.grows hgrows3 (fun _ h => h.elim) _
      ⟨hgrows.lt h3, hframe2.kind_funcs, ?_, ?_, hos⟩
    · rw [hgrows.name h3, hfuncs]
      rfl
    · rw [hgrows.value h3, hfuncs]

end Edit

namespace Structured

/-- Loading the text of a structured program gives the program back: the functions that are
loaded have the outline of the program. -/
theorem Program.outline_load (p : Program) (name : String) (w ends : Nat) (options : Options)
    (directory : Directory) :
    ∃ project program funcs,
      Edit.load name (String.ofList (p.text w ends)) { options, directory } = .ok () project ∧
        Edit.child Edit.root 0 project = .ok program project ∧
        Edit.child program 1 project = .ok funcs project ∧
        project.outline funcs = p.outline name := by
  let st := options.setting (programText (String.ofList (p.text w ends)))
  have hsource : st.source =
      .ofString (String.ofList (p.lines w ++ List.replicate (ends + 2) '\n')) := by
    show Source.ofString _ = _
    rw [p.programText_eq]
  obtain ⟨trees, hyields, htrees, houtlines⟩ := p.yields (by omega) hsource
  obtain ⟨shown, hload⟩ := Edit.exists_load_eq name (String.ofList (p.text w ends))
    { options, directory }
  obtain ⟨project, hbuild, hframe, hbears⟩ := Edit.exists_build_eq name
    (p := { options, directory, shown,
            text? := some (programText (String.ofList (p.text w ends))) })
    rfl rfl rfl (Project.unruled_of_nodes_eq rfl) hyields htrees
  refine ⟨project, 1, 3, hload.trans hbuild, Edit.child_natCast_eq (i := 0) ?_,
    Edit.child_natCast_eq (i := 1) ?_, ?_⟩
  · rw [hframe.children_root]
    rfl
  · rw [hframe.children_program]
    rfl
  · rw [hbears.outline_eq, houtlines]
    rfl

end Structured

end ArmaGen
