import ArmaGen.Project.Typing
import ArmaGen.Text.Template

/-!
# Indices

Indices count from one in the source and from zero in what is emitted. `indexArgument` gives the
text of an index less one, as a template, and its extent: a single element, several, or unknown. The
shape of what indexing gives follows from the extents: an index that selects one element takes an
axis away.
-/

namespace ArmaGen

inductive Extent where
  | unknown
  | single
  | several
  | whole (shape : Shape)
deriving Repr, DecidableEq, Inhabited

def Extent.isMany : Extent → Bool
  | .single => false
  | _ => true

namespace Edit

/-- The number of elements along an axis, as a member of what is indexed. -/
def axisLength (parent : NodeId) : Nat → Edit String
  | 0 => return if ← hasShape parent .column then ".n_cols" else ".n_rows"
  | 1 => return ".n_cols"
  | 2 => return ".n_slices"
  | _ => return ""

def literalLessOne (node : Node) : Edit (Option String) := do
  match node.kind with
  | .int =>
    match readInteger? node.value with
    | some n => return some (toString (n - 1))
    | none => throw .unreadable
  | .float =>
    match readNumeral? node.value with
    | some n => return some n.lessOneText
    | none => throw .unreadable
  | _ => return none

/-- The template for an index of known datatype less one, and its extent. -/
def typedArgument (id : NodeId) (shown : String) : Edit (String × Extent) := do
  let node ← node id
  match ← elementOf id, ← shapeOf id with
  | some element, some .scalar =>
    let shown := if element.rank > 1 then "(uword) " ++ shown else shown
    return ((← literalLessOne node).getD (shown ++ "-1"), .single)
  | some _, some .matrix => return (shown ++ "-1", .whole .matrix)
  | some _, some .cube => return (shown ++ "-1", .whole .cube)
  | some _, some shape =>
    let shown := if shape == .row then "arma::strans(" ++ shown ++ ")" else shown
    return (if node.kind == .colon then shown else shown ++ "-1", .several)
  | _, _ => throw .wrongSort

def indexArgument (id : NodeId) (axis : Nat) : Edit (String × Extent) := do
  if (← kind id) == .wholeIndex then
    let parent ← parent id
    let length := (← name parent) ++ (← axisLength parent axis)
    return ("span(0, " ++ length ++ "-1)", .several)
  else if !(← isTyped id) then return (Template.child axis, .unknown)
  else typedArgument id (Template.child axis)

/-! ### Shapes of indexed values -/

def isOne (id : NodeId) : Edit Bool := do
  let node ← node id
  return node.kind == .int && node.value == "1"

def indexSingle (id index : NodeId) : Edit Unit := do
  let (_, extent) ← indexArgument index 0
  if extent == .single then setShape id .scalar

def indexColumn (id : NodeId) : Edit Unit := do
  match ← children id with
  | [index] => indexSingle id index
  | [index, second] => if ← isOne second then indexSingle id index
  | _ => return ()

def indexRow (id : NodeId) : Edit Unit := do
  match ← children id with
  | [index] => indexSingle id index
  | [first, index] => if ← isOne first then indexSingle id index
  | _ => return ()

def selectedShape : Bool → Bool → Shape
  | true, true => .matrix
  | true, false => .column
  | false, true => .row
  | false, false => .scalar

def indexPair (id first second : NodeId) : Edit Unit := do
  let (_, rows) ← indexArgument first 0
  let (_, columns) ← indexArgument second 1
  if rows == .unknown || columns == .unknown then return ()
  else setShape id (selectedShape rows.isMany columns.isMany)

def indexMatrix (id : NodeId) : Edit Unit := do
  match ← children id with
  | [index] => indexSingle id index
  | [first, second] => indexPair id first second
  | _ => return ()

def selectedShape3 (rows columns slices : Bool) : Shape :=
  match [rows, columns, slices].count true with
  | 0 => .scalar
  | 1 => .column
  | 2 => .matrix
  | _ => .cube

def indexCube (id : NodeId) : Edit Unit := do
  match ← children id with
  | [index] => indexSingle id index
  | [first, second] => indexPair id first second
  | [first, second, third] =>
    let (_, rows) ← indexArgument first 0
    let (_, columns) ← indexArgument second 1
    let (_, slices) ← indexArgument third 2
    if [rows, columns, slices].contains .unknown then return ()
    else setShape id (selectedShape3 rows.isMany columns.isMany slices.isMany)
  | _ => return ()

end Edit

end ArmaGen
