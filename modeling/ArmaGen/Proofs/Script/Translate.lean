import ArmaGen.Output
import ArmaGen.Proofs.Script.Emit
import ArmaGen.Proofs.Text.Finish

/-!
# Scripts from text to text

A script of untyped expressions is read, configured and emitted line by line, unless there is a
quotient of matrices in it (`Script.exists_translate_iff`); emitting it again changes nothing
(`Script.exists_emit_emit_eq`). Formulas are emitted as they are written
(`Formula.exists_scriptText_eq`).
-/

namespace ArmaGen

open List

open Edit Outline

/-! ### Quotients -/

/-- An outline with a node of a kind in it. -/
inductive Outline.Has (kind : Kind) : Outline → Prop where
  | self {name value : String} {below : List Outline} : Has kind (.node kind name value below)
  | inner {kind' : Kind} {name value : String} {below : List Outline} {o : Outline}
      (ho : o ∈ below) (h : Has kind o) : Has kind (.node kind' name value below)

lemma Outline.has_node_iff {kind kind' : Kind} {name value : String} {below : List Outline} :
    (node kind' name value below).Has kind ↔ kind' = kind ∨ ∃ o ∈ below, o.Has kind := by
  constructor
  · intro h
    cases h with
    | self => exact .inl rfl
    | inner ho h => exact .inr ⟨_, ho, h⟩
  · rintro (rfl | ⟨o, ho, h⟩)
    · exact .self
    · exact .inner ho h

namespace Project

variable {p : Project} {text : String} {kind : Kind} {top : Nat}

lemma Bare.has_outline_iff (h : p.Bare text) (htop : top < p.size) :
    (p.outline top).Has kind ↔ ∃ id, p.Below top id ∧ (p.node id).kind = kind := by
  constructor
  · intro hhas
    generalize ho : p.outline top = o at hhas
    induction hhas generalizing top with
    | self =>
      exact ⟨top, .self, (node.inj ho).1⟩
    | inner ho' _ ih =>
      rw [h.outline_eq htop] at ho
      rw [← (node.inj ho).2.2.2] at ho'
      obtain ⟨c, hc, hco⟩ := mem_map.mp ho'
      obtain ⟨id, hbelow, hkind⟩ := ih (h.child_lt top htop c hc).2 hco
      exact ⟨id, (Below.self.child hc).trans hbelow, hkind⟩
  · rintro ⟨id, hbelow, hkind⟩
    have hself : (p.outline id).Has kind := by
      rw [h.outline_eq (h.lt_of_below htop hbelow).2, has_node_iff]
      exact .inl hkind
    clear hkind
    -- what an outline below another one has, the other one has
    induction hbelow with
    | self => exact hself
    | @child mid c hmid hc ih =>
      refine ih ?_
      rw [h.outline_eq (h.lt_of_below htop hmid).2]
      exact .inner (mem_map_of_mem hc) hself

end Project

namespace Term

mutual

/-- Whether an operator stands in an expression. -/
def uses (op : Operator) : Term → Bool
  | .name _ | .numeral _ => false
  | .call _ args => usesAny op args
  | .paren t | .neg t | .not t | .transpose t | .ctranspose t => t.uses op
  | .chain op' first others => op' == op || first.uses op || usesAny op others

def usesAny (op : Operator) : List Term → Bool
  | [] => false
  | t :: ts => t.uses op || usesAny op ts

end

lemma usesAny_iff {op : Operator} {ts : List Term} :
    usesAny op ts = true ↔ ∃ t ∈ ts, t.uses op = true := by
  induction ts with
  | nil => simp [usesAny]
  | cons t ts ih => simp [usesAny, ih]

lemma kind_eq_matrixDivision_iff (op : Operator) :
    op.kind = .matrixDivision ↔ (op == .matrixDivision) = true := by
  cases op <;> decide

lemma has_outline_iff (t : Term) :
    t.outline.Has .matrixDivision ↔ t.uses .matrixDivision = true := by
  have hany : ∀ ts : List Term,
      (∀ t ∈ ts, t.outline.Has .matrixDivision ↔ t.uses .matrixDivision = true) →
      ((∃ o ∈ outlines ts, o.Has .matrixDivision) ↔ usesAny .matrixDivision ts = true) := by
    intro ts hts
    rw [usesAny_iff, outlines_eq_map]
    constructor
    · rintro ⟨o, ho, hhas⟩
      obtain ⟨t, ht, rfl⟩ := mem_map.mp ho
      exact ⟨t, ht, (hts t ht).mp hhas⟩
    · rintro ⟨t, ht, huses⟩
      exact ⟨_, mem_map_of_mem ht, (hts t ht).mpr huses⟩
  induction t using induct with
  | name | numeral => simp [outline, uses, has_node_iff]
  | call f args ih => simp [outline, uses, has_node_iff, hany args ih]
  | paren t ih | neg t ih | not t ih | transpose t ih | ctranspose t ih =>
    simp [outline, uses, has_node_iff, ih]
  | chain op first others ihf iho =>
    have hothers := hany others iho
    rw [outline, uses, has_node_iff, kind_eq_matrixDivision_iff]
    simp only [mem_cons, exists_eq_or_imp, ihf, hothers, Bool.or_eq_true, or_assoc]

end Term

namespace Script

variable {sp : Spacing} {ts : List Term} {q : Project} {text name : String}

lemma has_outline_iff (ts : List Term) : (node .funcs name "" (outline ts)).Has .matrixDivision ↔
      ∃ t ∈ ts, t.uses .matrixDivision = true := by
  by_cases hts : ts = []
  · simp [outline, hts, has_node_iff]
  · simp [outline, hts, has_node_iff, Term.has_outline_iff]

lemma exists_below_iff (hq : q.Bare text)
    (houtline : q.outline 3 = .node .funcs name "" (outline ts)) :
    (∃ id, q.Below 1 id ∧ (q.node id).kind = .matrixDivision) ↔
      ∃ t ∈ ts, t.uses .matrixDivision = true := by
  have hsize := hq.eight_le
  rw [← has_outline_iff, ← houtline, hq.has_outline_iff (by omega)]
  constructor
  · rintro ⟨id, hbelow, hkind⟩
    have hid := (hq.lt_of_below (by omega) hbelow).2
    have hmain : 8 ≤ id := hq.le_of_kind hid hkind (by decide)
    rcases hbelow.eq_or with rfl | ⟨c, hc, hbelow⟩
    · omega
    rw [hq.children 1 (by omega) (by decide)] at hc
    by_cases hfuncs : c = 3
    · exact ⟨id, hfuncs ▸ hbelow, hkind⟩
    · -- the other parts of the program have no nodes below them
      have hpart : c < 8 ∧ below q.size c = [] := by
        simp only [below, mem_cons, not_mem_nil, or_false] at hc
        rcases hc with rfl | rfl | rfl | rfl | rfl | rfl
        case inr.inl => exact absurd rfl hfuncs
        all_goals exact ⟨by decide, rfl⟩
      rcases hbelow.eq_or with rfl | ⟨d, hd, -⟩
      · omega
      · rw [hq.children c (by omega) (by omega), hpart.2] at hd
        cases hd
  · rintro ⟨id, hbelow, hkind⟩
    have hfuncs : q.Below 1 3 := by
      refine Project.Below.self.child ?_
      rw [hq.children 1 (by omega) (by decide)]
      exact .tail _ (.head _)
    exact ⟨id, hfuncs.trans hbelow, hkind⟩

/-! ### Preparing scripts -/

/-- A project before anything is loaded, without rules of the user. -/
def start (disp comments : Bool) (directory : Directory) : Project :=
  { options := { disp, comments }, directory }

/-- Loads a script, with line ends after it, and configures it. -/
def setUp (sp : Spacing) (ts : List Term) (ends more : Nat) (name : String) (suggest : Bool) :
    Edit Unit := do
  load name (String.ofList (Script.text sp ends ts ++ replicate more '\n'))
  configure suggest

/-- A script is loaded and configured, and its program can be emitted by the rules of its nodes. -/
lemma exists_prepare_eq (hts : ∀ t ∈ ts, IsLine sp t) (ends more : Nat) (name : String)
    (suggest disp comments : Bool) (directory : Directory) :
    ∃ text q, setUp sp ts ends more name suggest (start disp comments directory) = .ok () q ∧
      q.Standard text ∧ q.Emits text q.size 0 [] q ∧
      q.outline 3 = .node .funcs name "" (outline ts) := by
  obtain ⟨text, p, hload, hbare, hoptions, hconfigured, hdepth, hbears⟩ :=
    exists_load_eq hts ends more name (start disp comments directory) rfl
  have hfull : (p.outline 3).Full := by
    rw [hbears.outline_eq]
    exact .node (Nat.zero_le _) (full_outline hts)
  obtain ⟨q, hrun, hq, hdone, houtline, hoptions', hdepth'⟩ :=
    exists_configure_eq hbare (hbare.complete hfull) hconfigured suggest
  rw [hoptions] at hoptions'
  have hstandard : q.Standard text := ⟨hq, by rw [hoptions']; rfl, by rw [hoptions']; rfl⟩
  refine ⟨text, q, bind_run hload hrun, hstandard, ?_, ?_⟩
  · exact emits_self hstandard hdone (by rw [hdepth', hdepth]; rfl)
  · rw [houtline, hbears.outline_eq]

lemma children_root (hq : q.Bare text) : (q.node root).children = [1] :=
  hq.children 0 hq.pos (by decide)

lemma firstProgram_eq (hq : q.Bare text) : firstProgram q = .ok 1 q :=
  child_natCast_eq (by rw [children_root hq]; rfl)

/-! ### Emitting scripts -/

lemma ne_matrixDivision (hq : q.Bare text)
    (houtline : q.outline 3 = .node .funcs name "" (outline ts))
    (hts : ∀ t ∈ ts, t.uses .matrixDivision = false) :
    ∀ id, q.Below 1 id → (q.node id).kind ≠ .matrixDivision := by
  intro id hbelow hkind
  obtain ⟨t, ht, huses⟩ := (exists_below_iff hq houtline).mp ⟨id, hbelow, hkind⟩
  rw [hts t ht] at huses
  cases huses

/-- A script of untyped expressions can be loaded and configured. It can be emitted just if there is
no quotient of matrices in it. -/
theorem exists_translate_iff (hts : ∀ t ∈ ts, IsLine sp t) (ends more : Nat) (name : String)
    (suggest disp comments : Bool) (directory : Directory) :
    ∃ q program, setUp sp ts ends more name suggest (start disp comments directory) = .ok () q ∧
      (q.node Edit.root).children = [program] ∧
      ((∃ q', Edit.emit program q = .ok () q') ↔ ∀ t ∈ ts, t.uses .matrixDivision = false) := by
  obtain ⟨text, q, hrun, hq, hemits, houtline⟩ :=
    exists_prepare_eq hts ends more name suggest disp comments directory
  refine ⟨q, 1, hrun, children_root hq.toBare, ?_, ?_⟩
  · rintro ⟨q', hemit⟩ t ht
    rw [Bool.eq_false_iff]
    intro huses
    obtain ⟨failure, p', herror⟩ := Edit.exists_emit_error hq hemits
      ((exists_below_iff hq.toBare houtline).mpr ⟨t, ht, huses⟩)
    rw [herror] at hemit
    cases hemit
  · intro hnone
    obtain ⟨q', hemit, -⟩ :=
      Edit.exists_emit_eq hq hemits (ne_matrixDivision hq.toBare houtline hnone)
    exact ⟨q', hemit⟩

/-- A script of a product, with a quote, and of a call. -/
def sample : List Term :=
  [.chain .mul (.name .a) [.ctranspose (.name .b)], .call .c [.neg (.name .a)]]

lemma layered_name {n : Name} (h : n.isUnknown = true) : (Term.name n).Layered sp :=
  .name (Formula.isVariable_of_isUnknown h)

lemma isLine_sample : ∀ t ∈ sample, IsLine ⟨fun _ => 0, 0⟩ t := by
  have ha : Name.a.isUnknown = true := by decide
  have hb : Name.b.isUnknown = true := by decide
  have hc : Name.c.isUnknown = true := by decide
  intro t ht
  simp only [sample, mem_cons, not_mem_nil, or_false] at ht
  rcases ht with rfl | rfl
  · refine ⟨.chain (by decide) (layered_name ha) ?_ (by decide) ⟨?_, by decide, trivial⟩,
      .chain (by decide) (.name ha) ?_, rfl⟩
    · simpa using Term.Layered.ctranspose (layered_name hb) (by decide)
    · exact ⟨by decide, by decide, by decide, by decide⟩
    · simpa using Term.Untyped.ctranspose (.name hb)
  · refine ⟨.call (Formula.isVariable_of_isUnknown hc) ?_, .call hc ?_, rfl⟩
    · simpa using Term.Layered.neg (layered_name ha) rfl
    · simpa using Term.Untyped.neg (.name ha)

theorem exists_translate_iff_sample :
    Script.text ⟨fun _ => 0, 0⟩ 1 sample = "a*b'\nc(-a)\n".toList ∧ ∃ q program,
      setUp ⟨fun _ => 0, 0⟩ sample 1 0 "unamed" true (start false true {}) = .ok () q ∧
      (q.node Edit.root).children = [program] ∧ ∃ q', Edit.emit program q = .ok () q' := by
  obtain ⟨q, program, hrun, hchildren, hiff⟩ :=
    exists_translate_iff isLine_sample 1 0 "unamed" true false true {}
  exact ⟨rfl, q, program, hrun, hchildren, hiff.mpr (by decide)⟩

def quotient : Term :=
  .chain .matrixDivision (.name .a) [.name .b]

lemma isLine_quotient : IsLine ⟨fun _ => 0, 0⟩ quotient := by
  have ha : Name.a.isUnknown = true := by decide
  have hb : Name.b.isUnknown = true := by decide
  refine ⟨.chain (by decide) (layered_name ha) ?_ (by decide) ⟨?_, by decide, trivial⟩,
    .chain (by decide) (.name ha) ?_, rfl⟩
  · simpa using layered_name hb
  · exact ⟨by decide, by decide, by decide, by decide⟩
  · simpa using Term.Untyped.name hb

/-- The quotient of two variables about which nothing is known cannot be emitted. -/
theorem exists_emit_quotient_error : Script.text ⟨fun _ => 0, 0⟩ 0 [quotient] = "a/b".toList ∧
    ∃ q failure q',
      setUp ⟨fun _ => 0, 0⟩ [quotient] 0 4 "unamed" true (start false true {}) = .ok () q ∧
      (do Edit.emit (← Edit.firstProgram) : Edit Unit) q = .error failure q' := by
  have hts : ∀ t ∈ [quotient], IsLine ⟨fun _ => 0, 0⟩ t := by
    intro t ht
    rw [List.mem_singleton.mp ht]
    exact isLine_quotient
  obtain ⟨text, q, hrun, hq, hemits, houtline⟩ :=
    exists_prepare_eq hts 0 4 "unamed" true false true {}
  obtain ⟨failure, q', herror⟩ := Edit.exists_emit_error hq hemits
    ((exists_below_iff hq.toBare houtline).mpr ⟨quotient, List.mem_singleton_self _, rfl⟩)
  exact ⟨rfl, q, failure, q', hrun, Edit.bind_run (firstProgram_eq hq.toBare) herror⟩

variable {least : Nat} {p : Project} {seen : List Nat}

/-- What stands in a program while it is emitted stood there before, or is an include or message. -/
lemma below_or_added {id depth : Nat} (hq : q.Bare text) (h : q.Emits text least depth seen p)
    (hid : p.Below 1 id) : q.Below 1 id ∨ (p.node id).Added := by
  induction hid with
  | self => exact .inl .self
  | @child mid c _ hc ih =>
    rcases ih with hbelow | hadded
    · have hmid := (hq.lt_of_below hq.size hbelow).2
      by_cases hlist : mid = 2 ∨ mid = 7
      · have hmem : mid ∈ [2, 7] := by simpa using hlist
        obtain ⟨hge, hlt⟩ := h.lists mid hmem c hc
        exact .inr (h.added c hlt hge)
      · rw [not_or] at hlist
        rw [h.children mid hmid hlist.1 hlist.2] at hc
        exact .inl (hbelow.child hc)
    · rw [hadded.children] at hc
      cases hc

/-- Emitting a program again and again gives the same texts. -/
lemma exists_emit_again (hq : q.Standard text) (h : q.Emits text least 0 [] p)
    (hne : ∀ id, q.Below 1 id → (q.node id).kind ≠ .matrixDivision)
    (hstr : ∀ id, q.Below 1 id → id ∉ [1, 2, 7] → (p.node id).str = (q.outline id).rendered)
    (n : Nat) : ∃ p', (replicate n 1).forM emit p = .ok () p' ∧
      ∀ id, q.Below 1 id → id ∉ [1, 2, 7] → (p'.node id).str = (p.node id).str := by
  induction n generalizing p with
  | zero => exact ⟨p, rfl, fun _ _ _ => rfl⟩
  | succ n ih =>
    obtain ⟨p1, hemit, h1, hstr₁⟩ := exists_emit_eq hq h hne
    obtain ⟨p', hrun, hstr'⟩ := ih h1 hstr₁
    refine ⟨p', bind_run hemit hrun, fun id hbelow hid => ?_⟩
    rw [hstr' id hbelow hid, hstr₁ id hbelow hid, hstr id hbelow hid]

/-- A script without quotients of matrices is emitted as often as one likes, and what is emitted for
its functions, headers and records stays what it was after the first time. -/
theorem exists_emit_emit_eq (hts : ∀ t ∈ ts, IsLine sp t)
    (hnone : ∀ t ∈ ts, t.uses .matrixDivision = false) (ends more : Nat) (name : String)
    (suggest disp comments : Bool) (directory : Directory) :
    ∃ q program q₁, setUp sp ts ends more name suggest (start disp comments directory) = .ok () q ∧
      (q.node Edit.root).children = [program] ∧ Edit.emit program q = .ok () q₁ ∧
      ∀ n, ∃ q₂, (List.replicate n program).forM Edit.emit q₁ = .ok () q₂ ∧
        ∀ id, q₁.Below program id → (q₁.node id).kind ∈ [.func, .main, .headers, .structs] →
          (q₂.node id).str = (q₁.node id).str := by
  obtain ⟨text, q, hrun, hq, hemits, houtline⟩ :=
    exists_prepare_eq hts ends more name suggest disp comments directory
  have hne := ne_matrixDivision hq.toBare houtline hnone
  obtain ⟨q₁, hemit, hemits₁, hstr₁⟩ := Edit.exists_emit_eq hq hemits hne
  refine ⟨q, 1, q₁, hrun, children_root hq.toBare, hemit, fun n => ?_⟩
  obtain ⟨q₂, hagain, hstr₂⟩ := exists_emit_again hq hemits₁ hne hstr₁ n
  refine ⟨q₂, hagain, fun id hbelow hkind => ?_⟩
  rcases below_or_added hq.toBare hemits₁ hbelow with hold | hadded
  · refine hstr₂ id hold fun hmem => ?_
    have hsize := hq.eight_le
    rw [hemits₁.kind (hq.lt_of_below hq.size hold).2] at hkind
    simp at hmem
    rcases hmem with rfl | rfl | rfl
    all_goals
      rw [(hq.frame _ (by omega) _ _ rfl).1] at hkind
      exact absurd hkind (by decide)
  · rcases hadded.sort with hsort | ⟨hsort, -⟩ <;> rw [hsort] at hkind <;>
      exact absurd hkind (by decide)

theorem exists_emit_emit_eq_sample :
    Script.text ⟨fun _ => 0, 0⟩ 1 sample = "a*b'\nc(-a)\n".toList ∧ ∃ q program q₁,
      setUp ⟨fun _ => 0, 0⟩ sample 1 0 "unamed" true (start false true {}) = .ok () q ∧
      (q.node Edit.root).children = [program] ∧ Edit.emit program q = .ok () q₁ ∧
      ∀ n, ∃ q₂, (List.replicate n program).forM Edit.emit q₁ = .ok () q₂ ∧
        ∀ id, q₁.Below program id → (q₁.node id).kind ∈ [.func, .main, .headers, .structs] →
          (q₂.node id).str = (q₁.node id).str :=
  ⟨rfl, exists_emit_emit_eq isLine_sample (by decide) 1 0 "unamed" true false true {}⟩

/-! ### The text of a script -/

lemma outline_block (hq : q.Bare text)
    (houtline : q.outline 3 = .node .funcs name "" (outline ts)) (hts : ts ≠ []) :
    8 < q.size ∧ (q.node 3).children = [8] ∧ q.outline 12 =
      .node .block "" "" (ts.map fun t => .node .statement "" "" [t.outline]) := by
  have hsize := hq.eight_le
  have hfuncs := hq.children 3 (by omega) (by decide)
  rw [hq.outline_eq (by omega), hfuncs, outline, if_neg hts, below] at houtline
  have hbelow := (node.inj houtline).2.2.2
  have hmain : 8 < q.size := by
    refine Nat.lt_of_le_of_ne hsize fun heq => ?_
    rw [if_pos heq.symm] at hbelow
    cases hbelow
  have hne : q.size ≠ 8 := by omega
  rw [if_neg hne, map_singleton, hq.outline_eq hmain, hq.children 8 hmain (by decide)] at hbelow
  have hparts := (node.inj (cons.inj hbelow).1).2.2.2
  refine ⟨hmain, by rw [hfuncs, below, if_neg hne], ?_⟩
  exact Option.some.inj (congrArg getLast? hparts)

/-- The text of a script is that of the block of its main function. -/
lemma exists_core_eq {depth : Nat} (hq : q.Bare text) (h : q.Emits text least depth seen p)
    (houtline : q.outline 3 = .node .funcs name "" (outline ts)) :
    ∃ id, Edit.core 1 p = .ok id p ∧ q.Below 1 id ∧ id ∉ [1, 2, 7] ∧
      (q.outline id).rendered = joinWith "\n" (ts.map fun t => t.outline.rendered ++ " ;") := by
  have hsize := hq.eight_le
  have hchildren : (p.node 3).children = (q.node 3).children :=
    h.children 3 (by omega) (by decide) (by decide)
  have hin : q.Below 1 3 := by
    refine Project.Below.self.child ?_
    rw [hq.children 1 hq.size (by decide)]
    exact .tail _ (.head _)
  have hscript : core 1 p = (do
      if ← isScript 3 then child (← child 3 0) (-1)
      else return 3) p := by
    have hprogram : kind 1 p = .ok .program p :=
      ok_congr ((h.kind hq.size).trans hq.kind_program)
    have hpart : child 1 1 p = .ok 3 p := by
      refine child_natCast_eq ?_
      rw [h.children 1 hq.size (by decide) (by decide), hq.children 1 hq.size (by decide)]
      rfl
    exact bind_run hprogram (bind_ok hpart)
  by_cases hts : ts = []
  · subst hts
    have hnil : (q.node 3).children = [] := by
      rw [hq.outline_eq (by omega)] at houtline
      exact map_eq_nil_iff.mp (node.inj houtline).2.2.2
    have hno : isScript 3 p = .ok false p := by
      have hlist : children 3 p = .ok [] p :=
        ok_congr (hchildren.trans hnil)
      exact bind_run hlist rfl
    refine ⟨3, hscript.trans (bind_run hno rfl), hin, by decide, ?_⟩
    rw [houtline]
    rfl
  · obtain ⟨hmain, hone, hblock⟩ := outline_block hq houtline hts
    have hparts := hq.children 8 hmain (by decide)
    have hyes : isScript 3 p = .ok true p := by
      have hlist : children 3 p = .ok [8] p :=
        ok_congr (hchildren.trans hone)
      have hname : Edit.name 8 p = .ok "main" p :=
        ok_congr ((h.name hmain).trans (hq.name_main hmain))
      exact bind_run hlist (bind_run hname rfl)
    have hfirst : child 3 0 p = .ok 8 p :=
      child_natCast_eq (by rw [hchildren, hone]; rfl)
    have hlast : child 8 (-1) p = .ok 12 p := by
      unfold child
      rw [node_bind, h.children 8 hmain (by decide) (by decide), hparts]
      rfl
    have hin8 : q.Below 1 8 := hin.child (by rw [hone]; exact .head _)
    refine ⟨12, ?_, hin8.child ?_, by decide, ?_⟩
    · refine hscript.trans (bind_run hyes ?_)
      exact bind_run hfirst hlast
    · rw [hparts]
      exact .tail _ (.tail _ (.tail _ (.head _)))
    · rw [hblock, rendered, renderedAll_eq_map, map_map]
      show (if ts.map (rendered ∘ _) = [] then _ else _) = _
      rw [if_neg (by simpa using hts)]
      rfl

end Script

/-! ### Formulas -/

namespace Term

lemma joinWith_rendered {sp : Spacing} (sep : String) (first : Term) (others : List Term)
    (h : ∀ t ∈ first :: others, t.outline.rendered = String.ofList (t.text sp)) :
    joinWith sep ((first :: others).map fun t => t.outline.rendered) =
      String.ofList (first.text sp ++ tailed sp sep.toList others) := by
  induction others generalizing first with
  | nil =>
    rw [tailed, append_nil]
    exact h first (.head _)
  | cons t ts ih =>
    have htail := ih t fun u hu => h u (.tail _ hu)
    rw [map_cons] at htail
    rw [map_cons, map_cons, joinWith, htail, h first (.head _), tailed]
    · simp only [← String.toList_inj, String.toList_append, String.toList_ofList, append_assoc]
    · simp

/-- Expressions whose operators keep their symbols are emitted as they are written, without blanks
around operators. -/
lemma Kept.rendered_outline {t : Term} (h : t.Kept) :
    t.outline.rendered = String.ofList (t.text Formula.tight) := by
  induction h with
  | name _ => rfl
  | @call f args hf hargs ih =>
    rw [outline, rendered, renderedAll_eq_map, outlines_eq_map, map_map]
    have hjoined : joinWith ", " (args.map fun t => t.outline.rendered) =
        String.ofList (joined Formula.tight args) := by
      cases args with
      | nil => rfl
      | cons t ts => exact joinWith_rendered ", " t ts ih
    show f.text ++ "(" ++ (joinWith ", " (args.map fun t => t.outline.rendered) ++ ")") = _
    rw [hjoined, text, Name.text]
    simp [← String.toList_inj]
  | @paren t _ ih =>
    show "(" ++ t.outline.rendered ++ ")" = _
    rw [ih, text]
    simp [← String.toList_inj]
  | @chain op first others hop hfirst hothers ihf iho =>
    have hrendered : ∀ name texts, op.kind.rendered name texts = joinWith op.symbol texts := by
      cases op <;> first | exact fun _ _ => rfl | cases hop
    have hjoint : Formula.tight.joint op = op.symbol.toList := append_nil _
    rw [outline, rendered, renderedAll_eq_map, outlines_eq_map, hrendered, text, hjoint,
      ← joinWith_rendered op.symbol first others]
    · rw [map_cons, map_map]
      rfl
    · intro t ht
      rcases mem_cons.mp ht with rfl | ht
      · exact ihf
      · exact iho t ht

lemma Kept.uses_eq_false {t : Term} (h : t.Kept) : t.uses .matrixDivision = false := by
  have hany : ∀ ts : List Term, (∀ t ∈ ts, t.uses .matrixDivision = false) →
      usesAny .matrixDivision ts = false := by
    intro ts hts
    rw [Bool.eq_false_iff, ne_eq, usesAny_iff]
    rintro ⟨t, ht, huses⟩
    rw [hts t ht] at huses
    cases huses
  induction h with
  | name => rfl
  | call _ _ ih => exact hany _ ih
  | paren _ ih => exact ih
  | @chain op first others hop _ _ ihf iho =>
    have hne : (op == .matrixDivision) = false := by
      rw [beq_eq_false_iff_ne]
      rintro rfl
      cases hop
    rw [uses, hne, ihf, hany others iho]
    rfl

end Term

namespace Formula

lemma isLine_term (w : Nat) (e : Formula) : Script.IsLine (spaced w) e.term :=
  ⟨e.layered_term w, e.kept_term.untyped, e.kept_term.isPassed⟩

/-- A script of formulas, with one blank on both sides of each operator and so many after each
comma. -/
def script (w ends : Nat) (es : List Formula) : String :=
  String.ofList (intercalate ['\n'] (es.map (text (spaced w))) ++ replicate ends '\n')

lemma script_eq (w ends : Nat) (es : List Formula) :
    script w ends es = String.ofList (Script.text (spaced w) ends (es.map term)) := by
  rw [script, Script.text, map_map]
  congr 4
  funext e
  exact (text_term (spaced w) e).symm

/-- A script of formulas is translated line by line: each line keeps its text, without the blanks
around operators and with one blank after each comma. -/
theorem exists_scriptText_eq (w ends : Nat) (es : List Formula) (suggest disp comments : Bool)
    (directory : Directory) :
    (∃ q, (do
        Edit.prepare [] suggest (script w ends es)
        Edit.scriptText (← Edit.firstProgram) : Edit String)
          (Script.start disp comments directory) =
      .ok (joinWith "\n" (es.map fun e => String.ofList (e.text tight) ++ " ;")) q) ∧
      ∀ e ∈ es, '\n' ∉ e.text tight := by
  have hts : ∀ t ∈ es.map term, Script.IsLine (spaced w) t := by
    intro t ht
    obtain ⟨e, -, rfl⟩ := List.mem_map.mp ht
    exact e.isLine_term w
  have hnone : ∀ t ∈ es.map term, t.uses .matrixDivision = false := by
    intro t ht
    obtain ⟨e, -, rfl⟩ := List.mem_map.mp ht
    exact e.kept_term.uses_eq_false
  obtain ⟨text, q, hrun, hq, hemits, houtline⟩ :=
    Script.exists_prepare_eq hts ends 4 "unamed" suggest disp comments directory
  have hprepare : Edit.prepare [] suggest (script w ends es)
      (Script.start disp comments directory) = .ok () q := by
    have hcode : Verbatim.markLines [] (script w ends es ++ "\n\n\n\n") = .ok (String.ofList
        (Script.text (spaced w) ends (es.map term) ++ List.replicate 4 '\n')) := by
      have hends : String.ofList (List.replicate 4 '\n') = "\n\n\n\n" := rfl
      rw [String.ofList_append, hends, ← script_eq]
      exact congrArg Except.ok String.ofList_toList
    exact (Edit.lift_bind hcode).trans hrun
  obtain ⟨q', hemit, hemits', hstr⟩ :=
    Edit.exists_emit_eq hq hemits (Script.ne_matrixDivision hq.toBare houtline hnone)
  obtain ⟨id, hcore, hbelow, hid, hrendered⟩ := Script.exists_core_eq hq.toBare hemits' houtline
  have htext : (q'.node id).str = joinWith "\n" (es.map statement) := by
    rw [hstr id hbelow hid, hrendered, List.map_map]
    congr 2
    funext e
    show e.term.outline.rendered ++ " ;" = _
    rw [e.kept_term.rendered_outline, text_term]
    rfl
  refine ⟨⟨q', Edit.bind_run hprepare ?_⟩, ?_⟩
  · refine Edit.bind_run (Script.firstProgram_eq hq.toBare) ?_
    refine Edit.bind_run hemit (Edit.bind_run hcore ?_)
    show (liftM (finish (q'.node id).str) : Edit String) q' = _
    rw [htext, finish_statements]
    rfl
  · intro e _ hmem
    exact absurd (List.all_eq_true.mp e.all_isPlain_text _ hmem) (by decide)

end Formula

end ArmaGen
