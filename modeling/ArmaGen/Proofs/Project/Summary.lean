import ArmaGen.Project.Summary
import ArmaGen.Proofs.Infer.Explicit
import ArmaGen.Proofs.Project.Place
import ArmaGen.Proofs.Project.Traverse

/-!
# Summaries show the tree

The lines of a summary are those of the nodes in depth. The bars of a line are counted by closing
nodes until the one above is found: what is open then are the nodes on the way to the node
(`Project.depths_preorderSteps`), so that there are as many bars as the node is deep.
-/

namespace ArmaGen

open List

/-! ### The nodes that are open -/

namespace Project

open Edit

variable {p : Project} {top id n : Nat} {path rest : List Nat}

/-- The numbers of nodes that are open above each of some nodes. -/
def depths (p : Project) : List Nat → List Nat → List Nat
  | _, [] => []
  | above, id :: rest =>
    let above := openAbove (p.node id).parent above
    above.length :: depths p (id :: above) rest

lemma openAbove_append {done : List Nat} (h : id ∉ done) (path : List Nat) :
    openAbove id (done ++ id :: path) = id :: path := by
  induction done with
  | nil => exact if_pos (beq_self_eq_true id)
  | cons a done ih =>
    rw [mem_cons, not_or] at h
    rw [cons_append, openAbove, if_neg (by simpa using Ne.symm h.1), ih h.2]

/-- A tree whose nodes know the nodes above them. -/
structure Linked (p : Project) (top : Nat) : Prop extends IsTree p top where
  parent : ∀ id, p.Below top id → ∀ c ∈ (p.node id).children, (p.node c).parent = id

/-- Going over what is below a node opens the node below the path to it, and leaves nothing open but
what is below the node. -/
lemma Linked.depths_preorderSteps (h : p.Linked top) (hlow : p.Low n id) (hid : p.Below top id)
    {above : List Nat} (hpath : openAbove (p.node id).parent above = path)
    (hdeep : p.Deep top path.length id) (rest : List Nat) :
    ∃ done ds, (∀ a ∈ done, ∃ c ∈ (p.node id).children, p.Below c a) ∧
      Forall₂ (fun a d => p.Deep top d a) (p.preorderSteps false n id) ds ∧
      p.depths above (p.preorderSteps false n id ++ rest) =
        ds ++ p.depths (done ++ id :: path) rest := by
  induction n generalizing id path above rest with
  | zero => exact hlow.elim
  | succ n ih =>
    -- one child after the other, each with the node on top of what stays open
    have hchildren : ∀ (cs done), cs ⊆ (p.node id).children →
        (∀ a ∈ done, ∃ c ∈ (p.node id).children, p.Below c a) →
        ∃ done' ds, (∀ a ∈ done', ∃ c ∈ (p.node id).children, p.Below c a) ∧
          Forall₂ (fun a d => p.Deep top d a) (cs.flatMap (p.preorderSteps false n)) ds ∧
          p.depths (done ++ id :: path) (cs.flatMap (p.preorderSteps false n) ++ rest) =
            ds ++ p.depths (done' ++ id :: path) rest := by
      intro cs
      induction cs with
      | nil => exact fun done _ hdone => ⟨done, [], hdone, .nil, rfl⟩
      | cons c cs ihcs =>
        intro done hcs hdone
        rw [cons_subset] at hcs
        have hnot : id ∉ done := fun hmem => by
          obtain ⟨c, hc, hbelow⟩ := hdone id hmem
          exact h.not_below hid hc hbelow
        have hopen : openAbove (p.node c).parent (done ++ id :: path) = id :: path := by
          rw [h.parent id hid c hcs.1, openAbove_append hnot]
        obtain ⟨done₁, ds₁, hdone₁, hds₁, heq₁⟩ := ih (hlow c hcs.1) (hid.child hcs.1) hopen
          (hdeep.child hcs.1) (cs.flatMap (p.preorderSteps false n) ++ rest)
        obtain ⟨done₂, ds₂, hdone₂, hds₂, heq₂⟩ := ihcs (done₁ ++ [c]) hcs.2 (by
          intro a ha
          rcases mem_append.1 ha with ha | ha
          · obtain ⟨d, hd, hbelow⟩ := hdone₁ a ha
            exact ⟨c, hcs.1, (Below.self.child hd).trans hbelow⟩
          · exact ⟨c, hcs.1, mem_singleton.1 ha ▸ .self⟩)
        refine ⟨done₂, ds₁ ++ ds₂, hdone₂, rel_append hds₁ hds₂, ?_⟩
        rw [flatMap_cons, append_assoc, heq₁, append_cons, heq₂, append_assoc]
    obtain ⟨done, ds, hdone, hds, heq⟩ := hchildren (p.node id).children [] (Subset.refl _) nofun
    refine ⟨done, path.length :: ds, hdone, .cons hdeep hds, ?_⟩
    show (openAbove (p.node id).parent above).length ::
      p.depths (id :: openAbove (p.node id).parent above) _ = _
    rw [hpath]
    exact congrArg (path.length :: ·) heq

end Project

/-! ### Lines -/

lemma Project.Remembers.caption {p q : Project} (h : p.Remembers q) (id : Nat) :
    (q.node id).caption = (p.node id).caption :=
  (congrArg Node.caption (h.settled id) :)

namespace Edit

open Project

variable {p q r : Project} {top lineWidth columnWidth : Nat} {id : NodeId}

lemma consults_shownPlace : Consults (shownPlace lineWidth columnWidth id) := by
  refine consults_line.bind fun line => ?_
  split
  · exact consults_read _
  · exact consults_cur.bind fun cur => consults_read _

lemma tidy_shownType : Tidy nowhere (shownType id) := by
  refine tidy_typeOf.bind fun type => ?_
  split
  · refine tidy_declaration.bind fun declaration => .nodeBind (fun node => ?_) fun _ => rfl
    split
    · exact .pure _
    · exact .pure _
    · exact .throw _
    · exact .throw _
  · exact .pure _

/-- The rows of a summary for nodes one after the other, in the course of a run: the place of the
node, a bar for each level, what it is, its type and its name. Place and type are looked up in the
state that the row before has left. -/
inductive Rows (p : Project) (top lineWidth columnWidth : Nat) :
    List NodeId → List String → Project → Project → Prop where
  | nil {q : Project} : Rows p top lineWidth columnWidth [] [] q q
  | cons {id depth : Nat} {ids : List NodeId} {place type : String} {rows : List String}
      {q q₁ q₂ r : Project} (hdeep : p.Deep top depth id)
      (hplace : shownPlace lineWidth columnWidth id q = .ok place q₁)
      (htype : shownType id q₁ = .ok type q₂)
      (rest : Rows p top lineWidth columnWidth ids rows q₂ r) :
      Rows p top lineWidth columnWidth (id :: ids)
        ((place ++ String.join (replicate depth "| ") ++ padRight 11 (p.node id).kind.name ++
          padRight 13 (p.node id).backend.name ++ padRight 8 type ++ (p.node id).name) :: rows) q r

/-- Looking up places and types leaves nodes where they are, with their names and rules. The nodes
that are open tell the depth. -/
lemma rows_summaryLines {above ids : List NodeId} {rows : List String}
    (hq : ∀ id, (q.node id).caption = (p.node id).caption)
    (hdeep : Forall₂ (fun id depth => p.Deep top depth id) ids (p.depths above ids))
    (hrun : summaryLines lineWidth columnWidth above ids q = .ok rows r) :
    Rows p top lineWidth columnWidth ids rows q r := by
  induction ids generalizing above q rows with
  | nil =>
    cases hrun
    exact .nil
  | cons id ids ih =>
    obtain ⟨place, q₁, hplace, hrun⟩ := exists_of_bind_ok hrun
    rw [node_bind] at hrun
    obtain ⟨type, q₂, htype, hrun⟩ := exists_of_bind_ok hrun
    obtain ⟨rows, q₃, hrows, hrun⟩ := exists_of_bind_ok hrun
    cases hrun
    rw [depths, forall₂_cons] at hdeep
    have h₁ : ∀ id, (q₁.node id).caption = (p.node id).caption := fun id =>
      ((consults_shownPlace hplace).caption id).trans (hq id)
    have h₂ : ∀ id, (q₂.node id).caption = (p.node id).caption := fun id =>
      ((tidy_shownType.kept htype id).2 not_false).trans (h₁ id)
    obtain ⟨hkind, hparent, hname, hrules⟩ : _ ∧ _ ∧ _ ∧ _ := by
      simpa only [Node.caption, Prod.mk.injEq] using h₁ id
    rw [hparent] at hrows ⊢
    rw [hkind, hname, hrules, map_const']
    exact .cons hdeep.1 hplace htype (ih h₂ hdeep.2 hrows)

lemma withoutMarks_eq {text : String} (h : '\\' ∉ text.toList) : withoutMarks text = text := by
  have hsteps : ∀ n cs, '\\' ∉ cs → withoutMarksSteps n cs = cs := by
    intro n cs hcs
    fun_induction withoutMarksSteps n cs with
    | case1 | case2 => rfl
    | case3 => exact absurd (.head _) hcs
    | case4 _ c rest _ ih => rw [ih fun hmem => hcs (.tail _ hmem)]
  rw [withoutMarks, hsteps _ _ h, String.ofList_toList]

/-- **A summary shows the tree.** It has a row for each node of a tree, in depth, with as many bars
as the node is deep. The columns of the place are as wide as those of the last node need. If there
are no line ends or backslashes in them, rows are lines of the text. -/
theorem summary_shows_tree {text : String} (h : p.Linked top) (hrun : summary top p = .ok text q) :
    ∃ last line cur p₁ p₂ rows, (p.preorder false top).getLast? = some last ∧
      Edit.line last p = .ok line p₁ ∧ Edit.cur last p₁ = .ok cur p₂ ∧
      Rows p top ((toString line).length + 1) ((toString (cur + 1)).length + 1)
        (p.preorder false top) rows p₂ q ∧
      text = withoutMarks ("\n".intercalate rows) ∧
      ((∀ row ∈ rows, '\n' ∉ row.toList ∧ '\\' ∉ row.toList) →
        text.toList.splitOn '\n' = rows.map String.toList) := by
  have hlow : p.Low (p.size + 1) top := h.low [] nodup_nil nofun .self (by simp)
  obtain ⟨done, ds, -, hdeep, hds⟩ := h.depths_preorderSteps hlow .self
    (show openAbove _ [] = [] from rfl) .root []
  have hds : p.depths [] (p.preorder false top) = ds := by
    rw [append_nil, depths, append_nil] at hds
    exact hds
  have hsummary : summaryOf (p.preorder false top) p = .ok text q := hrun
  unfold summaryOf at hsummary
  cases hlast : (p.preorder false top).getLast? with
  | none =>
    rw [hlast] at hsummary
    cases hsummary
  | some last =>
    rw [hlast] at hsummary
    obtain ⟨line, p₁, hline, hsummary⟩ := exists_of_bind_ok hsummary
    obtain ⟨cur, p₂, hcur, hsummary⟩ := exists_of_bind_ok hsummary
    obtain ⟨rows, p₃, hrows, hsummary⟩ := exists_of_bind_ok hsummary
    cases hsummary
    have hrows := rows_summaryLines
      (((consults_line hline).trans (consults_cur hcur)).caption ·) (hds.symm ▸ hdeep) hrows
    refine ⟨last, line, cur, p₁, p₂, rows, rfl, hline, hcur, hrows, rfl, fun hplain => ?_⟩
    have hne : rows ≠ [] := by
      rintro rfl
      cases hrows
    have hplain' : '\\' ∉ ("\n".intercalate rows).toList := by
      rw [String.toList_intercalate]
      exact not_mem_intercalate (by decide) (forall_mem_map.2 fun row hrow => (hplain row hrow).2)
    rw [withoutMarks_eq hplain', String.toList_intercalate]
    exact splitOn_intercalate '\n' (forall_mem_map.2 fun row hrow => (hplain row hrow).1)
      (mt map_eq_nil_iff.1 hne)

/-- A program with an included file in its first part, and a second part. -/
def sampleParts : Project where
  nodes := #[{ kind := .project, name := "A", cur? := some 0, children := [1] },
    { kind := .program, name := "B", cur? := some 0, children := [2, 4] },
    { kind := .includes, name := "C", parent := 1, children := [3] },
    { kind := .include, name := "D", parent := 2 }, { kind := .structs, name := "E", parent := 1 }]

theorem summary_shows_tree_sample : sampleParts.Linked 0 ∧ sampleParts.Deep 0 3 3 ∧
    ∃ text q, summary 0 sampleParts = .ok text q ∧ ∃ lineWidth columnWidth r rows,
      Rows sampleParts 0 lineWidth columnWidth [0, 1, 2, 3, 4] rows r q ∧
      text = withoutMarks ("\n".intercalate rows) := by
  have hnodes : ∀ id < sampleParts.size, (sampleParts.node id).children.Nodup ∧
      ∀ c ∈ (sampleParts.node id).children, id < c ∧ (sampleParts.node c).parent = id := by decide
  have htree : sampleParts.Linked 0 := ⟨isTree_of_parent hnodes 0, fun id _ c hc =>
    ((hnodes id (lt_size_of_mem hc)).2 c hc).2⟩
  have hdeep : sampleParts.Deep 0 3 3 :=
    .child (.child (.child .root (show 1 ∈ [1] by decide)) (show 2 ∈ [2, 4] by decide))
      (show 3 ∈ [3] by decide)
  have hruns : (summary 0).passes sampleParts (fun _ _ => true) = true := by decide +kernel
  obtain ⟨text, q, hrun, -⟩ := exists_of_passes hruns
  obtain ⟨_, _, _, _, r, rows, -, -, -, hrows, htext, -⟩ := summary_shows_tree htree hrun
  exact ⟨htree, hdeep, text, q, hrun, _, _, r, rows, hrows, htext⟩

end Edit

end ArmaGen
