import ArmaGen.Proofs.Script.Rule

/-!
# What accessors select

Subscripts count from one, the indices of an accessor from zero. The accessor of a matrix selects
what its two subscripts select, unless just one of them is a list. A single subscript is taken along
an axis that is not always its own (`Rule.exists_access`).
-/

namespace ArmaGen

/-! ### Subscripts and accessors -/

/-- The positions along an axis, counted from zero. -/
def along (length : Nat) : List Int :=
  (List.range length).map Int.ofNat

inductive Subscript where
  | number (n : Int)
  | last
  | whole
  | list (ns : List Int)

namespace Subscript

def isWhole : Subscript → Bool
  | .whole => true
  | _ => false

def isOne : Subscript → Bool
  | .number _ | .last => true
  | .whole => false
  | .list ns => ns.length == 1

/-- What a subscript selects along an axis, counted from zero. -/
def positions (length : Nat) : Subscript → List Int
  | .number n => [n - 1]
  | .last => [length - 1]
  | .whole => along length
  | .list ns => ns.map (· - 1)

lemma length_positions {s : Subscript} (hs : s.isWhole = false) (length : Nat) :
    (s.positions length).length = 1 ↔ s.isOne = true := by
  cases s <;> simp_all [isWhole, isOne, positions]

end Subscript

/-- What is meant by the emitted subscripts of an array, and by lengths. -/
structure Values where
  child : Nat → List Int
  length : String → Nat

inductive Index where
  | number (n : Int)
  | child (axis : Nat)
  | transposed (axis : Nat)
  | span (length : String)

namespace Index

def text : Index → String
  | .number n => toString n
  | .child axis => Template.child axis ++ "-1"
  | .transposed axis => "arma::strans(" ++ Template.child axis ++ ")" ++ "-1"
  | .span length => "span(0, " ++ length ++ "-1)"

def positions (m : Values) : Index → List Int
  | .number n => [n]
  | .child axis | .transposed axis => (m.child axis).map (· - 1)
  | .span length => along (m.length length)

end Index

/-- The elements in some rows and columns, column by column. -/
def crossing (rows columns : List Int) : List (Int × Int) :=
  columns.flatMap fun j => rows.map fun i => (i, j)

inductive Access where
  | all
  | columns (many : Bool) (j : Index)
  | rows (many : Bool) (i : Index)
  | inColumn (j i : Index)
  | inRow (i j : Index)
  | block (i j : Index)

namespace Access

def text : Access → String
  | .all => ""
  | .columns many j => (if many then ".cols(" else ".col(") ++ j.text ++ ")"
  | .rows many i => (if many then ".rows(" else ".row(") ++ i.text ++ ")"
  | .inColumn j i => ".col(" ++ j.text ++ ").rows(" ++ i.text ++ ")"
  | .inRow i j => ".row(" ++ i.text ++ ").cols(" ++ j.text ++ ")"
  | .block i j => "(" ++ i.text ++ ", " ++ j.text ++ ")"

/-- The elements that are accessed; a column or a row is accessed by just one number. -/
def cells (m : Values) (rows columns : Nat) : Access → Option (List (Int × Int))
  | .all => some (crossing (along rows) (along columns))
  | .columns many j =>
    if many ∨ (j.positions m).length = 1 then some (crossing (along rows) (j.positions m)) else none
  | .rows many i =>
    if many ∨ (i.positions m).length = 1 then some (crossing (i.positions m) (along columns))
    else none
  | .inColumn j i =>
    if (j.positions m).length = 1 then some (crossing (i.positions m) (j.positions m)) else none
  | .inRow i j =>
    if (i.positions m).length = 1 then some (crossing (i.positions m) (j.positions m)) else none
  | .block i j => some (crossing (i.positions m) (j.positions m))

end Access

namespace Rule

open Edit

variable {p : Project} {m : Values} {emitter : Emitter} {array id first second : NodeId}
  {axis rows columns : Nat} {s t : Subscript} {result : Shape} {i j : Index}

/-! ### Indices -/

/-- The member of an array that gives the number of its rows, or of its columns. -/
def lengthName (array : String) (ofRows : Bool) : String :=
  array ++ if ofRows then ".n_rows" else ".n_cols"

/-- A part of an array with so many rows and columns is read or written. -/
structure Indexed (p : Project) (m : Values) (array : NodeId) (result : Shape)
    (rows columns : Nat) : Prop where
  kind : (p.node array).kind.isIndexed = true
  type : ∃ element, (p.node array).type = .num result element
  length : ∀ ofRows, m.length (lengthName (p.node array).name ofRows) =
    if ofRows then rows else columns

/-- How a subscript stands in the project, and what it means where it is emitted. -/
inductive Writes (p : Project) (m : Values) (emitter : Emitter) (id : NodeId) (axis : Nat) :
    Subscript → Prop where
  | number {n : Int} (hkind : (p.node id).kind = .int) (htype : (p.node id).type = .int)
      (hvalue : readInteger? (p.node id).value = some n) : Writes p m emitter id axis (.number n)
  | last (hkind : (p.node id).kind = .endIndex) (htype : (p.node id).type = .int)
      (hmeans : ∀ text, endIndex id emitter p = .ok (some (.text text)) p →
        m.child axis = [(m.length text : Int)]) : Writes p m emitter id axis .last
  | whole (hkind : (p.node id).kind = .wholeIndex) : Writes p m emitter id axis .whole
  | list {ns : List Int} (hkind : (p.node id).kind = .matrix)
      (htype : (p.node id).type = .num (if ns.length = 1 then .scalar else .row) .int)
      (hmeans : m.child axis = ns) : Writes p m emitter id axis (.list ns)

structure Subscripts (p : Project) (m : Values) (emitter : Emitter) (array id : NodeId)
    (axis : Nat) (s : Subscript) : Prop where
  writes : Writes p m emitter id axis s
  parent : (p.node id).parent = array
  lt : axis < 2
  idxOf : (p.node array).children.idxOf? id = some axis

/-- Whether a subscript is taken along the rows; for all positions that depends on what is
selected. -/
def takesRows (result : Shape) (axis : Nat) (s : Subscript) : Bool :=
  axis == 0 && !(s.isWhole && result == .column)

lemma typeOf_num {shape : Shape} {element : Element} (h : (p.node id).type = .num shape element) :
    typeOf id p = .ok (.num shape element) p := by
  rw [typeOf, node_bind, h]
  rfl

lemma indexArgument_typed {shape : Shape} {element : Element}
    {r : EStateM.Result Failure Project (String × Extent)}
    (hkind : (p.node id).kind ≠ .wholeIndex) (htype : (p.node id).type = .num shape element)
    (h : typedArgument id (Template.child axis) p = r) : indexArgument id axis p = r := by
  show (if (p.node id).kind == .wholeIndex then _ else _ : Edit (String × Extent)) p = _
  rw [if_neg (by simpa using hkind)]
  refine bind_run (bind_ok (typeOf_num htype)) ?_
  exact h

lemma indexArgument_scalar {literal? : Option String} (hkind : (p.node id).kind ≠ .wholeIndex)
    (htype : (p.node id).type = .int) (h : literalLessOne (p.node id) p = .ok literal? p) :
    indexArgument id axis p = .ok (literal?.getD (Template.child axis ++ "-1"), .single) p := by
  apply indexArgument_typed hkind htype
  rw [typedArgument, node_bind]
  refine bind_run (bind_ok (typeOf_num htype)) ?_
  refine bind_run (bind_ok (typeOf_num htype)) ?_
  exact bind_ok h

section

variable (h : Indexed p m array result rows columns) (hs : Subscripts p m emitter array id axis s)

include h hs

lemma endIndex_eq :
    endIndex id emitter p = .ok (some (.text (lengthName (p.node array).name (axis == 0)))) p := by
  have hargument : argumentSteps (p.nodes.size + 1) id p = .ok id p := by
    show (if (p.node (p.node id).parent).kind.isIndexed || _ then _ else _ : Edit NodeId) p = _
    rw [hs.parent, h.kind]
    rfl
  refine rule_bind_run rfl ?_
  refine rule_bind_run hargument ?_
  refine rule_bind_run (ok_congr hs.parent) ?_
  refine rule_bind_run rfl ?_
  refine rule_bind_run (show children array p = .ok (p.node array).children p from rfl) ?_
  rw [hs.idxOf]
  match axis, hs.lt with
  | 0, _ => rfl
  | 1, _ => rfl

lemma axisLength_eq (hwhole : s.isWhole = true) : axisLength array axis p =
      .ok (if takesRows result axis s then ".n_rows" else ".n_cols") p := by
  obtain ⟨element, htype⟩ := h.type
  rw [takesRows, hwhole]
  match axis, hs.lt with
  | 0, _ =>
    refine bind_run (bind_ok (bind_ok (typeOf_num htype))) ?_
    cases result <;> rfl
  | 1, _ => rfl

/-- The index that stands for a subscript selects what the subscript does along the axis taken. -/
lemma exists_index :
    ∃ i : Index, indexArgument id axis p = .ok (i.text, if s.isOne then .single else .several) p ∧
      i.positions m = s.positions (if takesRows result axis s then rows else columns) := by
  cases hs.writes with
  | @number n hkind htype hvalue =>
    have hliteral : literalLessOne (p.node id) p = .ok (some (toString (n - 1))) p := by
      rw [literalLessOne, hkind, hvalue]
      rfl
    exact ⟨.number _, indexArgument_scalar (by simp [hkind]) htype hliteral, rfl⟩
  | last hkind htype hmeans =>
    have hliteral : literalLessOne (p.node id) p = .ok none p := by
      rw [literalLessOne, hkind]
      rfl
    refine ⟨.child axis, indexArgument_scalar (by simp [hkind]) htype hliteral, ?_⟩
    rw [Index.positions, hmeans _ (endIndex_eq h hs), h.length]
    simp [Subscript.positions, takesRows, Subscript.isWhole]
  | whole hkind =>
    refine ⟨.span (lengthName (p.node array).name (takesRows result axis .whole)), ?_, ?_⟩
    · show (if (p.node id).kind == .wholeIndex then _ else _ : Edit (String × Extent)) p = _
      rw [hkind]
      refine bind_run (ok_congr hs.parent) ?_
      refine bind_run rfl ?_
      exact bind_ok (axisLength_eq h hs rfl)
    · rw [Index.positions, h.length, Subscript.positions]
  | @list ns hkind htype hmeans =>
    by_cases hns : ns.length = 1
    · have hliteral : literalLessOne (p.node id) p = .ok none p := by
        rw [literalLessOne, hkind]
        rfl
      rw [if_pos hns] at htype
      simp only [Subscript.isOne, hns]
      refine ⟨.child axis, indexArgument_scalar (by simp [hkind]) htype hliteral, ?_⟩
      rw [Index.positions, hmeans, Subscript.positions]
    · rw [if_neg hns] at htype
      refine ⟨.transposed axis, ?_, by rw [Index.positions, hmeans, Subscript.positions]⟩
      apply indexArgument_typed (by simp [hkind]) htype
      rw [typedArgument, node_bind, hkind, Subscript.isOne, if_neg (by simpa using hns)]
      refine bind_run (bind_ok (typeOf_num htype)) ?_
      refine bind_run (bind_ok (typeOf_num htype)) ?_
      rfl

lemma exists_elementAt_eq (haxis : axis = 0) :
    ∃ i : Index, elementAt id emitter p = .ok (some (.text ("%(name)s(" ++ i.text ++ ")"))) p ∧
      i.positions m = s.positions (if takesRows result 0 s then rows else columns) := by
  subst haxis
  obtain ⟨i, hi, his⟩ := exists_index h hs
  refine ⟨i, rule_bind_run hi ?_, his⟩
  cases s.isOne <;> rfl

end

lemma kind_beq_wholeIndex (hs : Subscripts p m emitter array id axis s) :
    ((p.node id).kind == .wholeIndex) = s.isWhole := by
  cases hs.writes <;> simp_all [Subscript.isWhole]

/-! ### Parts of a matrix -/

def accessOf (s t : Subscript) (i j : Index) : Access :=
  if s.isWhole && t.isWhole then .all
  else if s.isWhole then .columns (!t.isOne) j
  else if t.isWhole then .rows (!s.isOne) i
  else if s.isOne && !t.isOne then .inColumn i j
  else if !s.isOne && t.isOne then .inRow i j
  else .block i j

lemma matrixPart_eq
    (hs : Subscripts p m emitter array first 0 s) (ht : Subscripts p m emitter array second 1 t)
    (hi : indexArgument first 0 p = .ok (i.text, if s.isOne then .single else .several) p)
    (hj : indexArgument second 1 p = .ok (j.text, if t.isOne then .single else .several) p) :
    matrixPart first second emitter p =
      .ok (some (.text ("%(name)s" ++ (accessOf s t i j).text))) p := by
  have hkind id : kind id p = .ok (p.node id).kind p := rfl
  refine rule_bind_run hi ?_
  refine rule_bind_run hj ?_
  dsimp only
  rw [if_neg (by cases s.isOne <;> cases t.isOne <;> decide), rule_bind_ok (hkind first),
    rule_bind_ok (hkind second), kind_beq_wholeIndex hs, kind_beq_wholeIndex ht, accessOf]
  cases s.isWhole <;> cases t.isWhole <;> cases s.isOne <;> cases t.isOne <;> rfl

/-- Where both subscripts are single, or none is, or one takes all, they select what they say. A
single row and a list of columns select from a column, a list of rows and a single column select
nothing. -/
lemma cells_accessOf {l : Nat} (hl : s.isWhole = false → l = rows)
    (hi : i.positions m = s.positions l) (hj : j.positions m = t.positions columns) :
    (accessOf s t i j).cells m rows columns =
      if s.isWhole ∨ t.isWhole ∨ s.isOne = t.isOne then
        some (crossing (s.positions rows) (t.positions columns))
      else if s.isOne then some (crossing (t.positions columns) (s.positions rows))
      else none := by
  have hone := fun hs => Subscript.length_positions (s := s) hs rows
  have hone' := fun ht => Subscript.length_positions (s := t) ht columns
  unfold accessOf
  cases hs : s.isWhole with
  | false =>
    cases ht : t.isWhole with
    | false => cases hs1 : s.isOne <;> cases ht1 : t.isOne <;> simp_all [Access.cells]
    | true =>
      cases t <;> cases ht
      cases hs1 : s.isOne <;> simp_all [Access.cells, Subscript.positions]
  | true =>
    cases s <;> cases hs
    cases ht : t.isWhole with
    | false => cases ht1 : t.isOne <;> simp_all [Access.cells, Subscript.positions]
    | true =>
      cases t <;> cases ht
      simp [Access.cells, Subscript.positions]

/-- The last row of a matrix, in the first and third columns. -/
def sampleIndexed : Project where
  nodes := #[{ kind := .get, name := "X", children := [1, 2], type := .num .row .int },
    { kind := .endIndex, type := .int, parent := 0 },
    { kind := .matrix, type := .num .row .int, parent := 0 }]

end Rule

end ArmaGen
