import ArmaGen.Proofs.Syntax.Aside

/-!
# What stands below a node

Each kind of node promises what stands below it (`Kind.promise`, `Promise.holds`). Parsers keep the
promises, but for one case: of a name with a dot after it and no field name after the dot, nothing
is made (`Source.Dangles`), and so the expression around it may lack an operand (`Source.Grants`).
-/

namespace ArmaGen

open List

/-! ### Promises -/

def Kind.isExpression (kind : Kind) : Bool :=
  kind.isGet || match kind with
    | .exp | .elexp | .mul | .minus | .elmul | .matrixDivision | .elementDivision
    | .leftMatrixDivision | .leftElementDivision | .plus | .colon | .gt | .ge | .lt | .le | .ne
    | .eq | .band | .bor | .land | .lor | .paren | .neg | .not | .ctranspose | .transpose
    | .wholeIndex | .endIndex | .breakLoop | .returnCall | .matrix | .cell | .int | .float | .imag |
      .string
    | .lambda | .var | .fvar | .cvar => true
    | _ => false

/-- What a node promises about the nodes below it. -/
inductive Promise where
  | any
  | operand
  | operands
  /-- What is assigned to, and an expression. -/
  | assign
  /-- Two or more things that are assigned to, and an expression. -/
  | assigns
  /-- A variable, an expression and a block. -/
  | loop
  | guarded
  | block
  /-- A first condition, further conditions, and at most one rest. -/
  | branch
  | parts
  | rows
deriving Repr, DecidableEq

def Kind.promise : Kind → Promise
  | .statement | .paren | .neg | .not | .transpose | .ctranspose => .operand
  | .exp | .elexp | .mul | .minus | .elmul | .matrixDivision | .elementDivision
  | .leftMatrixDivision | .leftElementDivision | .plus | .colon | .gt | .ge | .lt | .le | .ne | .eq
  | .band | .bor | .land | .lor => .operands
  | .assign => .assign
  | .assigns => .assigns
  | .forLoop | .parfor => .loop
  | .whileLoop | .ifBranch | .elif | .caseBranch => .guarded
  | .elseBranch | .otherwise | .tryBranch | .catchBranch => .block
  | .branch => .branch
  | .func | .main => .parts
  | .matrix => .rows
  | _ => .any

/-- Whether nodes of some kinds are what is promised. With `gaps`, expressions may be missing, and
things that are assigned to together. -/
def Promise.holds (gaps : Bool) : Promise → List Kind → Bool
  | .any, _ => true
  | .operand, [k] => k.isExpression
  | .operand, [] => gaps
  | .operand, _ => false
  | .operands, ks => ks.all Kind.isExpression && (gaps || 2 ≤ ks.length)
  | .assign, [target, k] => target.isName && k.isExpression
  | .assign, _ => false
  | .assigns, ks =>
    ks.dropLast.all Kind.isName &&
      if gaps then ks.getLast?.any fun k => k.isName || k.isExpression
      else 3 ≤ ks.length && ks.getLast?.any Kind.isExpression
  | .loop, [target, k, last] => target.isName && k.isExpression && last == .block
  | .loop, [target, last] => gaps && target.isName && last == .block
  | .loop, _ => false
  | .guarded, [k, last] => k.isExpression && last == .block
  | .guarded, [last] => gaps && last == .block
  | .guarded, _ => false
  | .block, ks => ks == [.block]
  | .branch, k :: ks =>
    k == .ifBranch && [[], [Kind.elseBranch]].contains (ks.dropWhile (· == .elif))
  | .branch, [] => false
  | .parts, ks => ks == Kind.funcParts
  | .rows, ks => ks.all (· == .vector)

lemma Promise.holds_of_full {promise : Promise} {ks : List Kind}
    (h : promise.holds false ks = true) : promise.holds true ks = true := by
  revert h
  fun_cases Promise.holds false promise ks
  case case8 =>
    intro h
    cases hlast : ks.getLast? <;> simp_all [Promise.holds]
  all_goals simp_all [Promise.holds]

lemma Promise.func_notMem {gaps : Bool} {promise : Promise} {ks : List Kind}
    (hany : promise ≠ .any) (h : promise.holds gaps ks = true) : .func ∉ ks := by
  intro hmem
  have hexpression : Kind.func.isExpression = false := rfl
  have hname : Kind.func.isName = false := rfl
  cases promise with
  | any => exact hany rfl
  | operand => rcases ks with _ | ⟨k, _ | ⟨_, _⟩⟩ <;> simp_all [Promise.holds]
  | operands => simp_all [Promise.holds]
  | assign => rcases ks with _ | ⟨k, _ | ⟨k', _ | ⟨_, _⟩⟩⟩ <;> grind [Promise.holds]
  | assigns =>
    rcases eq_nil_or_concat ks with rfl | ⟨init, last, rfl⟩
    · cases hmem
    · cases gaps <;> simp [Promise.holds] at h hmem <;> grind
  | loop => rcases ks with _ | ⟨k, _ | ⟨k', _ | ⟨k'', _ | ⟨_, _⟩⟩⟩⟩ <;> grind [Promise.holds]
  | guarded => rcases ks with _ | ⟨k, _ | ⟨k', _ | ⟨_, _⟩⟩⟩ <;> grind [Promise.holds]
  | block => simp_all [Promise.holds]
  | branch =>
    cases ks with
    | nil => cases hmem
    | cons k ks =>
      simp only [Promise.holds, Bool.and_eq_true, beq_iff_eq] at h
      obtain ⟨rfl, hrest⟩ := h
      have hmem : Kind.func ∈ ks := by simpa using hmem
      have helifs : (ks.takeWhile fun k => k == .elif).all (fun k => k == .elif) = true :=
        all_takeWhile
      rw [← takeWhile_append_dropWhile (p := fun k => k == .elif) (l := ks)] at hmem
      rcases mem_append.1 hmem with hmem | hmem
      · cases beq_iff_eq.1 (all_eq_true.1 helifs _ hmem)
      · have hcases : ks.dropWhile (· == .elif) = [] ∨
            ks.dropWhile (· == .elif) = [.elseBranch] := by
          simpa using hrest
        rcases hcases with hcases | hcases <;> rw [hcases] at hmem <;> simp at hmem
  | parts => simp_all [Promise.holds, Kind.funcParts]
  | rows => cases beq_iff_eq.1 (all_eq_true.1 h _ hmem)

/-! ### Names that make nothing -/

namespace Source

variable (s : Source)

/-- A name stands at a position, then a dot, and then a character with which no field starts. -/
def Fieldless (k : Int) (d : Char) : Prop :=
  ∃ c last dot, s.read k = .ok c ∧ isLetter c = true ∧ s.skip isWord (k + 1) = .ok last ∧
    s.skipBlanks last = .ok dot ∧ s.read dot = .ok '.' ∧ s.read (dot + 1) = .ok d ∧
    d ≠ '(' ∧ isLetter d = false

/-- A name stands at a position, then a dot that belongs to no operator, and no field. -/
def Dangles (k : Int) : Prop :=
  ∃ d, s.Fieldless k d ∧ Parse.namesField d = true

/-- What stands at a position is such a name, or the sign of a handle and then such a name. -/
def LacksName (k : Int) : Prop :=
  s.Dangles k ∨ s.read k = .ok '@' ∧ s.Dangles (k + 1)

/-- The expression at a position is such a name, perhaps after a continuation mark. -/
def Lacks (k : Int) : Prop :=
  s.LacksName k ∨ s.reads k "..." = true ∧
    ∃ e j, s.dotsEnd k = .ok e ∧ s.skipBlanks (e + 1) = .ok j ∧ s.LacksName j

/-- The condition at a position is such a name, perhaps in parentheses. -/
def LacksCondition (k : Int) : Prop :=
  s.Lacks k ∨ s.read k = .ok '(' ∧ ∃ j, s.skipBlanks (k + 1) = .ok j ∧ s.Lacks j

/-- What follows the sign of assignment in a loop at a position is such a name. -/
def LacksRange (length : Nat) (cur : Int) : Prop :=
  ∃ k stop eq j, s.skip (oneOf "( \t") (cur + length) = .ok k ∧
    (∃ st : Setting, st.source = s ∧
      (Parse.reference Parse.expression k st).outcome = .ok stop) ∧
    s.skipBlanks (stop + 1) = .ok eq ∧ s.read eq = .ok '=' ∧ s.skipBlanks (eq + 1) = .ok j ∧
    s.Lacks j

/-- In the assignment to the list in brackets at a position there are fewer than two things to be
assigned to, or one of them, or the value, is a name with a dot and no field. -/
def LacksTargets (cur : Int) : Prop :=
  ∃ rows stop eq, s.items cur = .ok rows ∧ s.matrixEnd cur = .ok stop ∧
    s.skipBlanks (stop + 1) = .ok eq ∧
    (rows.flatten.length < 2 ∨ (∃ span ∈ rows.flatten, ∃ d, s.Fieldless span.1 d) ∨
      ∃ j, s.skipBlanks (eq + 1) = .ok j ∧ s.Lacks j)

/-- What a node of a kind at a position is made of lacks an operand. -/
def LacksAt (kind : Kind) (cur : Int) : Prop :=
  match kind with
  | .statement | .transpose | .ctranspose => s.Lacks cur
  | .paren | .neg | .not => ∃ k, s.skipBlanks (cur + 1) = .ok k ∧ s.Lacks k
  | .caseBranch => ∃ k, s.skipBlanks (cur + 4) = .ok k ∧ s.Lacks k
  | .whileLoop => ∃ k, s.skipBlanks (cur + 5) = .ok k ∧ s.LacksCondition k
  | .elif => ∃ k, s.skipBlanks (cur + 6) = .ok k ∧ s.LacksCondition k
  | .ifBranch => s.LacksCondition cur
  | .forLoop => s.LacksRange 3 cur
  | .parfor => s.LacksRange 6 cur
  | .assigns => s.LacksTargets cur
  | _ => ∃ op stop spans, op.kind = kind ∧ s.operands op cur stop = .ok spans ∧
      ∃ span ∈ spans, s.Lacks span.1

/-- The nodes below a node are the promised ones, but for gaps in its text. -/
def Grants (kind : Kind) (cur? : Option Int) (ks : List Kind) : Prop :=
  kind.promise.holds false ks = true ∨
    kind.promise.holds true ks = true ∧ ∃ cur ∈ cur?, s.LacksAt kind cur

variable {s}

lemma grants_any {kind : Kind} (h : kind.promise = .any) (cur? : Option Int) (ks : List Kind) :
    s.Grants kind cur? ks := by
  refine .inl ?_
  rw [h]
  rfl

lemma Grants.filter {kind : Kind} {cur? : Option Int} {ks : List Kind}
    (h : s.Grants kind cur? ks) : s.Grants kind cur? (ks.filter (· != .func)) := by
  by_cases hany : kind.promise = .any
  · exact grants_any hany _ _
  · have hnone : .func ∉ ks :=
      h.elim (Promise.func_notMem hany) fun h => Promise.func_notMem hany h.1
    have hall : ∀ k ∈ ks, (k != .func) = true := by
      intro k hk
      rw [bne_iff_ne]
      rintro rfl
      exact hnone hk
    rwa [filter_eq_self.2 hall]

end Source

/-! ### Trees that keep their promises -/

/-- What is made of a node of a kind: of an anonymous function, a function. -/
def Kind.grown : Kind → Kind
  | .lambda => .func
  | kind => kind

/-- The ordinary kinds that promise nothing. -/
def Kind.isSimple (kind : Kind) : Bool :=
  kind.isOrdinary && kind.promise == .any

lemma Kind.ordinary_of_isSimple {kind : Kind} (h : kind.isSimple = true) :
    kind.isOrdinary = true ∧ kind.promise = .any := by
  cases kind <;> first | exact ⟨rfl, rfl⟩ | cases h

namespace Syntax

mutual

/-- The nodes of a tree have the promised nodes below them. -/
def Shaped (s : Source) : Syntax → Prop
  | .node head items => s.Grants head.kind.grown head.cur? (kinds items) ∧ ShapedAll s items
  | .declare => True

def ShapedAll (s : Source) : List Syntax → Prop
  | [] => True
  | item :: rest => Shaped s item ∧ ShapedAll s rest

end

variable {s : Source}

lemma shapedAll_append {xs ys : List Syntax} :
    ShapedAll s (xs ++ ys) ↔ ShapedAll s xs ∧ ShapedAll s ys := by
  induction xs with
  | nil => simp [ShapedAll]
  | cons x xs ih => rw [cons_append, ShapedAll, ShapedAll, ih, and_assoc]

lemma kinds_declare (items : List Syntax) : kinds (items ++ [.declare]) = kinds items := by
  rw [kinds_append]
  exact append_nil _

lemma length_nodes (items : List Syntax) : (nodes items).length = (kinds items).length := by
  induction items with
  | nil => rfl
  | cons item items ih =>
    cases item with
    | declare => exact ih
    | node head below => exact congrArg (· + 1) ih

end Syntax

/-! ### What is made -/

namespace Parse

open Syntax

variable {s : Source} {made : List Syntax} {L L' : Prop}

/-- One expression is made. -/
def Whole (made : List Syntax) : Prop :=
  ∃ kind, kinds made = [kind] ∧ kind.isExpression = true

/-- One expression is made, or nothing, and then something is lacking. -/
def Operand (lacks : Prop) (made : List Syntax) : Prop :=
  Whole made ∨ made = [] ∧ lacks

lemma Operand.imp (h : Operand L made) (hL : L → L') : Operand L' made :=
  Or.imp_right (And.imp_right hL) h

variable {kind : Kind}

lemma operand_of_kinds (h : kinds made = [kind]) (hkind : kind.isExpression = true) :
    Operand L made :=
  .inl ⟨kind, h, hkind⟩

/-- What is read of a name is made, or nothing, and then something is lacking. -/
def Named (lacks : Prop) (made : List Syntax) : Prop :=
  (∃ kind, kinds made = [kind] ∧ kind.isName = true ∧ kind.isExpression = true) ∨ made = [] ∧ lacks

lemma Named.imp (h : Named L made) (hL : L → L') : Named L' made :=
  Or.imp_right (And.imp_right hL) h

lemma Named.operand (h : Named L made) : Operand L made :=
  h.imp_left fun ⟨kind, hkinds, _, hkind⟩ => ⟨kind, hkinds, hkind⟩

lemma named_of_kinds (h : kinds made = [kind]) (hname : kind.isName = true)
    (hkind : kind.isExpression = true) : Named L made :=
  .inl ⟨kind, h, hname, hkind⟩

/-- What is assigned to is made, or nothing, and then something is lacking. -/
def Aimed (lacks : Prop) (made : List Syntax) : Prop :=
  (∃ kind, kinds made = [kind] ∧ kind.isName = true) ∨ kinds made = [] ∧ lacks

lemma aimed_of_kinds (h : kinds made = [kind]) (hname : kind.isName = true) : Aimed L made :=
  .inl ⟨kind, h, hname⟩

/-- Nodes are made for each of some spans, or something is lacking. -/
lemma kinds_append_cases {rest : List Syntax} {C : Kind → Prop} {L : Int × Int → Prop}
    {span : Int × Int} {spans : List (Int × Int)}
    (h : (∃ kind, kinds made = [kind] ∧ C kind) ∨ kinds made = [] ∧ L span)
    (hrest : (∀ kind ∈ kinds rest, C kind) ∧
      ((kinds rest).length = spans.length ∨ ∃ span ∈ spans, L span)) :
    (∀ kind ∈ kinds (made ++ rest), C kind) ∧
      ((kinds (made ++ rest)).length = (span :: spans).length ∨
        ∃ other ∈ span :: spans, L other) := by
  obtain ⟨hkinds, hcount⟩ := hrest
  rw [kinds_append]
  rcases h with ⟨kind, hmade, hkind⟩ | ⟨hmade, hlacks⟩ <;> rw [hmade]
  · refine ⟨forall_mem_cons.2 ⟨hkind, hkinds⟩, hcount.imp (fun hlength => ?_) ?_⟩
    · simpa using hlength
    · rintro ⟨other, hother, hlacks⟩
      exact ⟨other, .tail _ hother, hlacks⟩
  · exact ⟨hkinds, .inr ⟨span, .head _, hlacks⟩⟩

lemma grants_operand {cur : Int} (hpromise : kind.promise = .operand)
    (h : Operand (s.LacksAt kind cur) made) : s.Grants kind (some cur) (kinds made) := by
  rw [Source.Grants, hpromise]
  rcases h with ⟨k, hkinds, hk⟩ | ⟨rfl, hgap⟩
  · rw [hkinds]
    exact .inl hk
  · exact .inr ⟨rfl, cur, rfl, hgap⟩

end Parse

end ArmaGen
