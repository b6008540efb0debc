import ArmaGen.Project.Typing

/-!
# What the surroundings of a value suggest

The shape and element type that a value should have by where it stands: those of the variable it
is assigned to, or of the elements of the matrix it stands in.
-/

namespace ArmaGen

structure Expectation where
  shape : Option Shape := none
  element : Option Element := none
deriving Repr, DecidableEq, Inhabited

namespace Edit

def numericElements : List NodeId → Edit (List Element)
  | [] => return []
  | id :: rest => do
    if ← isNumeric id then
      match ← elementOf id with
      | some element => return element :: (← numericElements rest)
      | none => throw .wrongSort
    else numericElements rest

def grandchildren (id : NodeId) : Edit (List NodeId) := do
  return (← (← children id).mapM children).flatten

def writtenShape (rows columns : Nat) : Shape :=
  match decide (rows > 1), decide (columns > 1) with
  | true, true => .matrix
  | true, false => .column
  | false, true => .row
  | false, false => .scalar

def firstChildren (ids : List NodeId) : Edit (List NodeId) :=
  ids.mapM fun id => child id 0

def matrixExpectation (matrix : NodeId) : Edit Expectation := do
  let rows ← children matrix
  let width := do count (← child matrix 0)
  let expected := fun (shape : Shape) (elements : List Element) =>
    match elements with
    | [] => ({} : Expectation)
    | first :: rest =>
      { shape := some shape, element := some (rest.foldl Datatype.maxElement first) }
  if !(← value matrix).isEmpty then
    let shape := writtenShape rows.length (← width)
    return expected shape (← numericElements (← grandchildren matrix))
  else if rows.length == 1 then
    if (← width) == 1 then return {}
    else return expected .matrix (← numericElements (← children (← child matrix 0)))
  else if (← width) == 1 then
    return expected .matrix (← numericElements (← firstChildren rows))
  else return expected .matrix (← numericElements (← grandchildren matrix))

def expectationSteps : Nat → NodeId → Edit Expectation
  | 0, _ => throw .endless
  | n + 1, id => do
    let group ← group id
    match ← kind group with
    | .transpose | .ctranspose =>
      let expected ← expectationSteps n group
      return if expected.shape == some .column then { expected with shape := some .row }
        else expected
    | .assign =>
      let target ← child group 0
      if ← isNumeric target then
        return { shape := ← shapeOf target, element := ← elementOf target }
      else return {}
    | .matrix => matrixExpectation group
    | _ => return {}

def expectation (id : NodeId) : Edit Expectation := do
  expectationSteps (← height) id

end Edit

end ArmaGen
