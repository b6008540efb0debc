import ArmaGen.Proofs.Project.Grant
import ArmaGen.Proofs.Text.Continuation
import Mathlib.Data.List.Forall2

/-!
# The lines of nodes

The line of a node is found by climbing: the line of the node above it, and one more for each line
end between the two positions. This adds up to the line ends before the node
(`Project.Laid.onLine`). Continued lines are read with a blank in front, so that the lines are
still those of the program as it was written (`forall₂_programText`).
-/

namespace ArmaGen

open List

/-! ### Line ends -/

namespace Source

variable {text : String} {a b : Int}

lemma lineEnds_eq (ha : 0 ≤ a) (hab : a ≤ b) :
    (ofString text).lineEnds a b = ((text.toList.take b.toNat).drop a.toNat).count '\n' := by
  have hspan : (ofString text).span a b =
      (text.toList.drop (min a.toNat text.toList.length)).take
        (min b.toNat text.toList.length - min a.toNat text.toList.length) := by
    rw [span, clip, clip, if_pos ha, if_pos (Int.le_trans ha hab), Array.toList_extract]
    rfl
  rw [lineEnds, hspan, drop_take]
  congr 1
  rcases Nat.le_total a.toNat text.toList.length with hle | hle
  · rw [Nat.min_eq_left hle, take_eq_take_iff, length_drop]
    omega
  · rw [Nat.min_eq_right hle, drop_eq_nil_of_le .refl, drop_eq_nil_of_le hle, take_nil, take_nil]

lemma lineEnds_add (ha : 0 ≤ a) (hab : a ≤ b) :
    (ofString text).lineEnds 0 a + (ofString text).lineEnds a b = (ofString text).lineEnds 0 b := by
  rw [lineEnds_eq Int.le_rfl ha, lineEnds_eq ha hab, lineEnds_eq Int.le_rfl (Int.le_trans ha hab)]
  have htake : text.toList.take a.toNat = (text.toList.take b.toNat).take a.toNat := by
    rw [take_take, Nat.min_eq_left (Int.toNat_le_toNat hab)]
  rw [Int.toNat_zero, drop_zero, drop_zero, htake, ← count_append, take_append_drop]

end Source

/-! ### Lines that are continued -/

/-- A line as it is read: itself, or with a blank in front. -/
def ReadAs (line read : List Char) : Prop :=
  read = line ∨ read = ' ' :: line

lemma forall₂_readBelow (above : List Char) (lines : List (List Char)) :
    Forall₂ ReadAs lines (zipWith readBelow (above :: lines) lines) := by
  induction lines generalizing above with
  | nil => exact .nil
  | cons line lines ih =>
    refine .cons ?_ (ih line)
    unfold readBelow
    split
    · exact .inr rfl
    · exact .inl rfl

/-- The lines of a program are read in order, and three empty lines after them. -/
lemma forall₂_programText (code : String) :
    Forall₂ ReadAs (code.toList.splitOn '\n' ++ [[], [], []])
      ((programText code).toList.splitOn '\n') := by
  have hread : (programText code).toList.splitOn '\n' =
      (continued false code.toList).splitOn '\n' ++ [[], [], []] := by
    rw [programText_eq, String.toList_append, String.toList_ofList]
    exact splitOn_append_cons_self _ _
  obtain ⟨first, lines, hsplit, hcontinued⟩ := exists_splitOn_continued code.toList
  rw [hread, hsplit, hcontinued]
  exact rel_append (.cons (.inl rfl) (forall₂_readBelow first lines))
    (.cons (.inl rfl) (.cons (.inl rfl) (.cons (.inl rfl) .nil)))

/-! ### Programs with their places -/

namespace Project

variable {q r : Project} {id : Nat} {c : Int} {text : String}

/-- A program with all its nodes where they should be, and its text. -/
structure Laid (base : Nat) (text : String) (q : Project) : Prop extends Parted base text q where
  seat : ∀ id, base < id → id < q.size → id ≠ base + 2 → q.Seat id
  parent : ∀ id, base < id → id < q.size → base ≤ (q.node id).parent ∧ (q.node id).parent < id
  children : ∀ id, base ≤ id → id < q.size → ∀ below : Nat, below ∈ (q.node id).children →
    id < below ∧ below < q.size ∧ (q.node below).parent = id

lemma Laid.stays {base : Nat} (h : q.Laid base text) (hstays : q.Stays r) : r.Laid base text := by
  have hlabels := hstays.labels
  have hparent : ∀ id, (r.node id).parent = (q.node id).parent :=
    fun id => congrArg (·.2.1) (hstays.site id)
  refine ⟨h.toParted.labels hlabels, ?_, fun id hle hlt => ?_, fun id hle hlt below hbelow => ?_⟩
  · rw [hstays.size]
    exact fun id hle hlt hne => (h.seat id hle hlt hne).labels hlabels hlt (h.parent id hle hlt).2
  · rw [hparent]
    exact h.parent id hle (hstays.size ▸ hlt)
  · rw [hstays.children] at hbelow
    rw [hstays.size] at hlt ⊢
    rw [hparent]
    exact h.children id hle hlt below hbelow

lemma laid_of_started {base : Nat} (h : q.Started base text)
    (hfits : q.Fulfils (.ofString text) r) (hr : r.Whole base) : r.Laid base text := by
  refine ⟨h.toParted.labels hfits.toLabels, fun id hle hid hne => ?_,
    fun id hle hid => (hr.sound.parent id hle hid).1, fun id hle hid =>
      hr.sound.child id ⟨hle, hid⟩⟩
  by_cases hold : id < q.size
  · exact seat_of_loose (hfits.toLabels.loose hold (h.loose id hle hold hne))
  · exact (hfits.new id (Nat.not_lt.1 hold) hid).2

/-- The second part of a program are its functions. -/
lemma getElem?_funcs {base id : Nat} (hr : r.Whole base) (hpos : 0 < base) (hid : base < id)
    (hlt : id < r.size) (hkind : (r.node id).kind = .funcs) (hparent : (r.node id).parent = base) :
    (r.node base).children[1]? = some id := by
  have hparts := hr.sound.below base ⟨.refl, Nat.lt_trans hid hlt⟩
  rw [hr.sound.top.1, if_neg (Nat.ne_of_gt hpos)] at hparts
  obtain ⟨-, hmem, -⟩ := hr.sound.parent id hid hlt
  rw [hparent] at hmem
  obtain ⟨i, hi⟩ := mem_iff_getElem?.1 hmem
  have hfound : (r.kindsBelow base)[i]? = some .funcs := by
    rw [kindsBelow, getElem?_map, hi, Option.map_some, hkind]
  obtain ⟨rest, hrest⟩ := hparts
  have hwhich : Kind.programParts[i]? = some .funcs := by
    rw [← hrest, getElem?_append_left (List.getElem?_eq_some_iff.1 hfound).1, hfound]
  obtain rfl : i = 1 := by
    have hall : ∀ i < 6, Kind.programParts[i]? = some .funcs → i = 1 := by decide
    exact hall i (List.getElem?_eq_some_iff.1 hwhich).1 hwhich
  exact hi

namespace Laid

variable {base : Nat} (h : q.Laid base text)

include h

lemma unread (hgt : base < id) (hlt : id < q.size) : (q.node id).foundLine? = none := by
  by_cases hid : id = base + 2
  · rw [hid]
    exact congrArg (·.2.2.2.2) h.funcs
  · exact (h.seat id hgt hlt hid).unread

lemma exists_place (hle : base ≤ id) (hlt : id < q.size) : ∃ c, 0 ≤ c ∧ q.Place id c := by
  induction id using Nat.strongRecOn with
  | ind id ih =>
    rcases Nat.eq_or_lt_of_le hle with rfl | hgt
    · exact ⟨0, Int.le_rfl, h.place_program⟩
    · obtain ⟨hbase, hparent⟩ := h.parent id hgt hlt
      obtain ⟨above, hpos, habove⟩ := ih _ hparent hbase (Nat.lt_trans hparent hlt)
      cases hcur : (q.node id).cur? with
      | none => exact ⟨above, hpos, .above hcur hparent habove⟩
      | some c =>
        have hne : id ≠ base + 2 := by
          rintro rfl
          cases hcur.symm.trans (congrArg (·.2.2.1) h.funcs)
        obtain ⟨above', habove', hle'⟩ := (h.seat id hgt hlt hne).place c hcur
        rw [habove.unique habove'] at hpos
        exact ⟨c, Int.le_trans hpos hle', .own hcur⟩

lemma exists_place_parent (hgt : base < id) (hlt : id < q.size) (hplace : q.Place id c) :
    ∃ above, q.Place (q.node id).parent above ∧ above ≤ c := by
  cases hplace with
  | own hcur =>
    refine (h.seat id hgt hlt ?_).place c hcur
    rintro rfl
    cases hcur.symm.trans (congrArg (·.2.2.1) h.funcs)
  | above _ _ rest => exact ⟨c, rest, Int.le_rfl⟩

lemma encloses_program (hle : base ≤ id) (hlt : id < q.size) :
    q.Encloses (fun kind => kind == .program || kind == .project) base id := by
  induction id using Nat.strongRecOn with
  | ind id ih =>
    rcases Nat.eq_or_lt_of_le hle with rfl | hgt
    · exact .self (by rw [h.program_kind]; rfl) hlt
    · obtain ⟨hbase, hparent⟩ := h.parent id hgt hlt
      refine .above ?_ hparent hlt (ih _ hparent hbase (Nat.lt_trans hparent hlt))
      by_cases hfuncs : id = base + 2
      · rw [hfuncs, h.funcs_kind]
        rfl
      · have hinner := (h.seat id hgt hlt hfuncs).inner
        cases hkind : (q.node id).kind <;> first | rfl | (rw [hkind] at hinner; cases hinner)

lemma encloses_funcs {id top : Nat} (htop : q.Encloses Kind.isOuter (base + 2) top)
    (hid : q.Below top id) : q.Encloses Kind.isOuter (base + 2) id := by
  induction hid with
  | self => exact htop
  | child _ hbelow ih =>
    have hle := ih.top_le
    obtain ⟨hgt, hlt, hparent⟩ := h.children _ (by omega) ih.lt_size _ hbelow
    exact .above (h.seat _ (by omega) hlt (by omega)).inner (by rwa [hparent]) hlt
      (by rwa [hparent])

/-- The line of a node below the functions of a program. -/
lemma onLine (hid : q.Encloses Kind.isOuter (base + 2) id) (hplace : q.Place id c) :
    q.OnLine id (1 + (Source.ofString text).lineEnds 0 c) := by
  induction hid generalizing c with
  | self _ hlt =>
    refine .own ?_
    rw [hplace.unique h.place_funcs, Source.lineEnds_eq Int.le_rfl Int.le_rfl, Node.ownLine?,
      h.unread (by omega) hlt, h.funcs_kind]
    rfl
  | @above id hkind hparent hlt hrest ih =>
    have hle : base + 2 < id := Nat.lt_of_le_of_lt hrest.top_le hparent
    have hown : (q.node id).ownLine? = none := by
      rw [Node.ownLine?, h.unread (by omega) hlt]
      dsimp only
      split
      iterate 2 · next heq => rw [heq] at hkind; cases hkind
      · rfl
    obtain ⟨above, habove, hcur⟩ := h.exists_place_parent (by omega) hlt hplace
    obtain ⟨above', hpos, habove'⟩ := h.exists_place
      (Nat.le_trans (Nat.le_add_right base 2) hrest.top_le) hrest.lt_size
    rw [← habove.unique habove'] at hpos
    have hprogram : Edit.program id q = .ok base q :=
      (h.encloses_program (by omega) hlt).enclosing_eq (q.size + 1) (Nat.lt_succ_of_lt hlt)
    have hline := OnLine.above hown hparent (ih habove) habove hplace hprogram (by omega)
      (.own (congrArg (·.2.2.2.1) h.program))
    rwa [Int.add_assoc, ← Int.natCast_add, Source.lineEnds_add hpos hcur] at hline

end Laid

end Project

/-! ### Looking up lines -/

namespace Edit

open Project

variable {q : Project}

/-- **Positions and lines are right.** Whatever a project holds, of a program that has been loaded
into it, each node at or below its functions stands at or after the node above it, and its line is
one more than the line ends before it in the text of the program. The lines of this text are those
of the program as it was written, some of them with a blank in front, and three empty ones. -/
theorem load_lines {p : Project} {name code : String} (hpos : 0 < p.size)
    (hload : load name code p = .ok () q) :
    ∃ program funcs, child root (p.node root).children.length q = .ok program q ∧
      child program 1 q = .ok funcs q ∧ (q.node funcs).kind = .funcs ∧
      (q.node program).code? = some (programText code) ∧
      (∀ id ∈ q.preorder false funcs, ∃ c q₁ q₂, cur id q = .ok c q₁ ∧ 0 ≤ c ∧
        line id q = .ok (1 + ((programText code).toList.take c.toNat).count '\n') q₂ ∧
        ∃ above q₃, cur (q.node id).parent q = .ok above q₃ ∧ above ≤ c) ∧
      List.Forall₂ ReadAs (code.toList.splitOn '\n' ++ [[], [], []])
        ((programText code).toList.splitOn '\n') := by
  obtain ⟨r', r, hr, hstarted, hfits, hstays⟩ := started_of_load_ok hpos hload
  have hlaid' := laid_of_started hstarted hfits hr.whole
  have hlaid : q.Laid p.size (programText code) := hlaid'.stays hstays
  have hroot : (q.node root).children = (p.node root).children ++ [p.size] := by
    rw [hstays.children, hr.root]
  refine ⟨p.size, p.size + 2, child_natCast_eq ?_, child_natCast_eq (i := 1) ?_,
    hlaid.funcs_kind, congrArg (·.2.2.2.1) hlaid.program, fun id hid => ?_,
    forall₂_programText code⟩
  · rw [hroot]
    exact List.getElem?_concat_length
  · rw [hstays.children]
    exact getElem?_funcs hr.whole hpos (Nat.lt_add_of_pos_right (by decide)) hlaid'.lt
      hlaid'.funcs_kind hlaid'.funcs_parent
  · have hself : q.Encloses Kind.isOuter (p.size + 2) (p.size + 2) :=
      .self (by rw [hlaid.funcs_kind]; rfl) hlaid.lt
    have hencloses := hlaid.encloses_funcs hself (below_of_mem_preorderSteps hid)
    have hle := hencloses.top_le
    have hlt := hencloses.lt_size
    obtain ⟨c, hc, hplace⟩ := hlaid.exists_place (show p.size ≤ id by omega) hlt
    obtain ⟨q₁, hcur, -⟩ := finds_cur (.refl q) hlt hplace
    obtain ⟨q₂, hline, -⟩ := finds_line (.refl q) hlt (hlaid.onLine hencloses hplace)
    refine ⟨c, q₁, q₂, hcur, hc, ?_, ?_⟩
    · have hcount : (Source.ofString (programText code)).lineEnds 0 c = _ :=
        Source.lineEnds_eq Int.le_rfl hc
      rw [Int.toNat_zero, List.drop_zero] at hcount
      rw [← hcount]
      exact hline
    · obtain ⟨above, habove, hle⟩ := hlaid.exists_place_parent (by omega) hlt hplace
      have hparent := (hlaid.parent id (by omega) hlt).2
      obtain ⟨q₃, hcur', -⟩ := finds_cur (.refl q) (Nat.lt_trans hparent hlt) habove
      exact ⟨above, q₃, hcur', hle⟩

/-- A sum that goes on on the next line, and an anonymous function on the line after it. -/
theorem load_lines_continued : ∃ q program funcs,
    0 < ({} : Project).size ∧ load "unamed" "x = a + ...\nb\nf = @(t) t\n" {} = .ok () q ∧
    child root 0 q = .ok program q ∧ child program 1 q = .ok funcs q ∧
    ∀ id ∈ q.preorder false funcs, ∃ c q₁ q₂, cur id q = .ok c q₁ ∧ 0 ≤ c ∧
      line id q = .ok (1 + ((programText "x = a + ...\nb\nf = @(t) t\n").toList.take c.toNat).count
        '\n') q₂ ∧
      ∃ above q₃, cur (q.node id).parent q = .ok above q₃ ∧ above ≤ c := by
  have hloads : (load "unamed" "x = a + ...\nb\nf = @(t) t\n").passes {} (fun _ _ => true) =
      true := by decide +kernel
  obtain ⟨⟨⟩, q, hrun, -⟩ := exists_of_passes hloads
  obtain ⟨program, funcs, hprogram, hfuncs, -, -, hnodes, -⟩ := load_lines (by decide) hrun
  exact ⟨q, program, funcs, by decide, hrun, hprogram, hfuncs, hnodes⟩

end Edit

end ArmaGen
