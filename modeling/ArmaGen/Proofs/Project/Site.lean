import ArmaGen.Emit.Log
import ArmaGen.Proofs.Project.Place
import ArmaGen.Proofs.Text.Template

/-!
# Where nodes stand in the source

Look-ups of position, text and line always succeed in a project whose nodes have their sites in the
text of its program (`Project.Sited`), and change nothing but what is remembered.
-/

namespace ArmaGen

namespace Project

variable {p p' r : Project} {text : String} {id : Nat} {c : Int}

def above (p : Project) (id : Nat) : Nat :=
  (p.node id).parent

/-- The nodes of a project stand below its program, and have their positions in a text. -/
structure Sited (text : String) (p : Project) : Prop where
  size : 2 ≤ p.size
  kind_root : (p.node 0).kind = .project
  kind_program : (p.node 1).kind = .program
  above_lt : ∀ id < p.size, 0 < id → p.above id < id
  below : ∀ id < p.size, 1 < id →
    0 < p.above id ∧ (p.node id).kind ≠ .program ∧ (p.node id).kind ≠ .project
  cur_root : (p.node 0).cur? ≠ none
  code_root : (p.node 0).code? ≠ none
  code_program : (p.node 1).code? = some text
  cur_lt : ∀ id < p.size, ∀ cur, (p.node id).cur? = some cur → 0 ≤ cur ∧ cur < text.length

lemma Sited.congr (h : p.Sited text) (hsize : p'.size = p.size)
    (hkind : ∀ id, (p'.node id).kind = (p.node id).kind) (habove : ∀ id, p'.above id = p.above id)
    (hcur : ∀ id, (p'.node id).cur? = (p.node id).cur?)
    (hcode : ∀ id, (p'.node id).code? = (p.node id).code?) : p'.Sited text := by
  constructor <;> simp only [hsize, hkind, habove, hcur, hcode]
  · exact h.size
  · exact h.kind_root
  · exact h.kind_program
  · exact h.above_lt
  · exact h.below
  · exact h.cur_root
  · exact h.code_root
  · exact h.code_program
  · exact h.cur_lt

namespace Sited

variable (h : p.Sited text)

include h

lemma exists_inherits {α : Type} {read : Node → Option α} (hroot : read (p.node 0) ≠ none)
    (hid : id < p.size) : ∃ a, p.Inherits read id a := by
  induction id using Nat.strongRecOn with
  | ind id ih =>
    cases hread : read (p.node id) with
    | some a => exact ⟨a, .own hread⟩
    | none =>
      have hpos : 0 < id := Nat.pos_of_ne_zero fun hzero => hroot (hzero ▸ hread)
      have hlt := h.above_lt id hid hpos
      obtain ⟨a, ha⟩ := ih _ hlt (Nat.lt_trans hlt hid)
      exact ⟨a, .above hread hlt ha⟩

lemma place_lt (hplace : p.Place id c) (hid : id < p.size) : 0 ≤ c ∧ c < text.length := by
  induction hplace with
  | own hcur => exact h.cur_lt _ hid _ hcur
  | above _ hlt _ ih => exact ih (Nat.lt_trans hlt hid)

lemma encloses_program (hpos : 0 < id) (hid : id < p.size) :
    p.Encloses (fun kind => kind == .program || kind == .project) 1 id := by
  induction id using Nat.strongRecOn with
  | ind id ih =>
    rcases Nat.lt_or_ge 1 id with hlt | hle
    · obtain ⟨habove, hprogram, hproject⟩ := h.below id hid hlt
      have hup := h.above_lt id hid hpos
      exact .above (by simp [hprogram, hproject]) hup hid (ih _ hup habove (Nat.lt_trans hup hid))
    · obtain rfl : id = 1 := by omega
      exact .self (by simp [h.kind_program]) hid

lemma exists_onLine (hid : id < p.size) : ∃ line, p.OnLine id line := by
  induction id using Nat.strongRecOn with
  | ind id ih =>
    cases hown : (p.node id).ownLine? with
    | some line => exact ⟨line, .own hown⟩
    | none =>
      have hpos : 0 < id := by
        refine Nat.pos_of_ne_zero ?_
        rintro rfl
        unfold Node.ownLine? at hown
        rw [h.kind_root] at hown
        split at hown <;> cases hown
      have hlt := h.above_lt id hid hpos
      obtain ⟨line, hline⟩ := ih _ hlt (Nat.lt_trans hlt hid)
      obtain ⟨above, habove⟩ := h.exists_inherits h.cur_root (Nat.lt_trans hlt hid)
      obtain ⟨cur, hcur⟩ := h.exists_inherits h.cur_root hid
      exact ⟨_, .above hown hlt hline habove hcur ((h.encloses_program hpos hid).enclosing_eq
        (p.size + 1) (Nat.lt_succ_of_lt hid)) h.size (.own h.code_program)⟩

lemma knows (hr : p.Knows r) : r.Sited text := by
  have habove : ∀ j, r.above j = p.above j := hr.parent
  refine ⟨hr.size ▸ h.size, ?_, ?_, fun j hj hpos => ?_, fun j hj hlt => ?_, ?_, ?_, ?_,
    fun j hj cur hcur => ?_⟩
  · rw [hr.kind, h.kind_root]
  · rw [hr.kind, h.kind_program]
  · rw [habove]
    exact h.above_lt j (hr.size ▸ hj) hpos
  · rw [habove, hr.kind]
    exact h.below j (hr.size ▸ hj) hlt
  · exact fun hnone => h.cur_root (hr.cur.none hnone)
  · exact fun hnone => h.code_root (hr.code.none hnone)
  · rcases hr.code 1 with hsame | ⟨code, hcode, hread⟩
    · exact hsame.trans h.code_program
    · rw [← hcode.unique (.own h.code_program)]
      exact hread
  · rcases hr.cur j with hsame | ⟨c, hc, hread⟩
    · exact h.cur_lt j (hr.size ▸ hj) cur (hsame.symm.trans hcur)
    · rw [← Option.some.inj (hread.symm.trans hcur)]
      exact h.place_lt hc (hr.size ▸ hj)

end Sited

end Project

namespace Edit

open Project

variable {α : Type} {p q : Project} {text : String} {id : Nat}

lemma mapM_eq {f : Nat → Edit α} {g : Nat → α} {ids : List Nat}
    (h : ∀ id ∈ ids, f id p = .ok (g id) p) : ids.mapM f p = .ok (ids.map g) p := by
  induction ids with
  | nil => rfl
  | cons id ids ih =>
    rw [List.mapM_cons]
    refine bind_run (h id (.head _)) ?_
    exact bind_ok (ih fun j hj => h j (.tail _ hj))

lemma childTexts_eq : childTexts id p = .ok ((p.node id).children.map fun c => (p.node c).str) p :=
  mapM_eq fun _ _ => rfl

/-- The properties of a node tell what is emitted for its children. -/
lemma consults_properties {props : Properties} (hrun : properties id p = .ok props q) :
    p.Remembers q ∧ ∃ node : Node, ∃ line cur code, props = node.properties line cur code
      ((p.node id).children.map fun c => (p.node c).str) := by
  obtain ⟨line, p₁, hline, hrun⟩ := exists_of_bind_ok hrun
  obtain ⟨cur, p₂, hcur, hrun⟩ := exists_of_bind_ok hrun
  obtain ⟨code, p₃, hcode, hrun⟩ := exists_of_bind_ok hrun
  have hshown : Consults (shownLine id) := by
    refine (consults_read _).bind fun node => ?_
    split
    · exact consults_read _
    · exact consults_line
  have hr := ((hshown hline).trans (consults_cur hcur)).trans (consults_code hcode)
  rw [node_bind] at hrun
  cases (bind_ok childTexts_eq).symm.trans hrun
  exact ⟨hr, q.node id, line, cur, code, by rw [← hr.children, ← funext hr.str]⟩

section

variable (h : p.Sited text)

include h

lemma program_eq (hpos : 0 < id) (hid : id < p.size) : program id p = .ok 1 p :=
  (h.encloses_program hpos hid).enclosing_eq (p.size + 1) (Nat.lt_succ_of_lt hid)

lemma code_program_eq : code 1 p = .ok text p := by
  unfold code
  rw [height_bind, inherited, node_bind, h.code_program]
  rfl

end

lemma exists_properties_eq {r : Project} (hid : id < p.size) (h : p.Sited text) (hr : p.Knows r) :
    ∃ props p', properties id r = .ok props p' ∧ p.Knows p' ∧ ∃ node : Node, ∃ line cur code,
      node.settled = (p.node id).settled ∧ props = node.properties line cur code
        ((p.node id).children.map fun c => (p.node c).str) := by
  obtain ⟨c, hc⟩ := h.exists_inherits h.cur_root hid
  obtain ⟨code, hcode⟩ := h.exists_inherits h.code_root hid
  obtain ⟨line, hline⟩ := h.exists_onLine hid
  obtain ⟨line, r₁, hrun₁, h₁⟩ : ∃ line, Finds p (shownLine id) r line := by
    simp only [shownLine, finds_node_bind]
    split
    · exact ⟨_, r, rfl, hr⟩
    · exact ⟨line, finds_line hr hid hline⟩
  obtain ⟨r₂, hrun₂, h₂⟩ := finds_cur h₁ hid hc
  obtain ⟨r₃, hrun₃, h₃⟩ := finds_code h₂ hid hcode
  refine ⟨_, r₃, bind_run hrun₁ (bind_run hrun₂ (bind_run hrun₃ (bind_ok childTexts_eq))),
    h₃, r₃.node id, line, c, code, h₃.settled id, ?_⟩
  rw [← h₃.children, ← funext h₃.str]
  rfl

end Edit

/-! ### Making nodes -/

lemma Project.Sited.make {p : Project} {text : String} {id : Nat} {node : Node}
    (h : p.Sited text) (hpos : 0 < id) (hid : id < p.size) (hprogram : node.kind ≠ .program)
    (hproject : node.kind ≠ .project)
    (hcur : ∀ cur, node.cur? = some cur → 0 ≤ cur ∧ cur < text.length) :
    (p.make id node).Sited text := by
  -- the nodes that are there stay where they are
  have hold : ∀ {α : Type} (g : Node → α), (∀ node children, g { node with children } = g node) →
      ∀ j : Nat, j < 2 → g ((p.make id node).node j) = g (p.node j) :=
    fun _ hg j hj => apply_node_make hid (by omega) hg
  refine ⟨by rw [size_make]; omega, ?_, ?_, ?_, ?_, ?_, ?_, ?_, ?_⟩
  · exact (hold Node.kind (fun _ _ => rfl) 0 (by decide)).trans h.kind_root
  · exact (hold Node.kind (fun _ _ => rfl) 1 (by decide)).trans h.kind_program
  · exact forall_make (P := fun j new => 0 < j → new.parent < j) hid h.above_lt (fun h => h)
      fun _ => hid
  · exact forall_make (P := fun j new => 1 < j → 0 < new.parent ∧ new.kind ≠ .program ∧
      new.kind ≠ .project) hid h.below (fun h => h) fun _ => ⟨hpos, hprogram, hproject⟩
  · rw [hold Node.cur? (fun _ _ => rfl) 0 (by decide)]
    exact h.cur_root
  · rw [hold Node.code? (fun _ _ => rfl) 0 (by decide)]
    exact h.code_root
  · exact (hold Node.code? (fun _ _ => rfl) 1 (by decide)).trans h.code_program
  · exact forall_make (P := fun _ new => ∀ cur, new.cur? = some cur → 0 ≤ cur ∧ cur < text.length)
      hid h.cur_lt (fun h => h) hcur

end ArmaGen
