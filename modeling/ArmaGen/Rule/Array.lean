import ArmaGen.Emit.Auxiliary
import ArmaGen.Emit.Log
import ArmaGen.Infer.Indexing

/-!
# Rules for elements of arrays

How elements of columns, rows, matrices and cubes are read and written. Whole axes and ranges
select parts of the array, single numbers select elements.
-/

namespace ArmaGen.Rule

open Edit

def lessOne : Emit (Option Emission) :=
  Emit.around "%(name)s(" "-1, " "-1)"

def elementAt (index : NodeId) : Emit (Option Emission) := do
  let (arg, extent) ← indexArgument index 0
  if extent == .unknown then lessOne else Emit.text ("%(name)s(" ++ arg ++ ")")

/-! ### Columns and rows -/

def complain (id : NodeId) (count : String) (what : String) : Edit Unit :=
  error id (count ++ " arguments in a " ++ what)

/-- Whether one of the first two arguments is an array of ones; of more than two only the second
counts. -/
def selectsByOnes (first second : NodeId) (others : List NodeId) : Edit Bool := do
  if others.isEmpty && (← name first) == "ones" then return true
  else return (← name second) == "ones"

def onesSelection (first second : NodeId) : Emit (Option Emission) := do
  let part := fun (id : NodeId) (index : Nat) => do
    return Template.child index ++ (if (← name id) == "ones" then "-1" else "")
  Emit.text ("%(name)s(" ++ (← part first 0) ++ ", " ++ (← part second 1) ++ ")")

def columnGet : Rule := fun id => do
  match ← children id with
  | [] =>
    complain id "Zero" "vec call"
    Emit.text "%(name)s()"
  | [index] => elementAt index
  | first :: second :: others =>
    if others.isEmpty && (← isOne second) then elementAt first
    else if ← selectsByOnes first second others then onesSelection first second
    else
      complain id "More than one" "vec call"
      Emit.call "%(name)s"

def columnSet : Rule := fun id => do
  match ← children id with
  | [] =>
    complain id "Zero" "vec call"
    Emit.text "%(name)s()"
  | [index] => elementAt index
  | first :: second :: others =>
    if others.isEmpty && (← isOne second) then elementAt first
    else
      complain id "More than one" "vec call"
      lessOne

def rowGet : Rule := fun id => do
  match ← children id with
  | [] =>
    complain id "Zero" "rowvec call"
    Emit.text "%(name)s()"
  | [index] => elementAt index
  | first :: second :: others =>
    if others.isEmpty && (← isOne first) then elementAt second
    else if ← selectsByOnes first second others then onesSelection first second
    else
      complain id "More than one" "rowvec call"
      lessOne

def rowSet : Rule := fun id => do
  match ← children id with
  | [] =>
    complain id "Zero" "rowvec call"
    Emit.text "%(name)s()"
  | [index] => elementAt index
  | first :: second :: others =>
    if others.isEmpty && (← isOne first) then elementAt second
    else
      complain id "More than one" "rowvec call"
      lessOne

/-! ### Matrices -/

def matrixPart (first second : NodeId) : Emit (Option Emission) := do
  let (rows, rowExtent) ← indexArgument first 0
  let (columns, columnExtent) ← indexArgument second 1
  if rowExtent == .unknown || columnExtent == .unknown then lessOne
  else
    let allRows := (← kind first) == .wholeIndex
    let allColumns := (← kind second) == .wholeIndex
    Emit.text <| "%(name)s" ++
      if allRows && allColumns then ""
      else if allRows then
        (if columnExtent.isMany then ".cols(" else ".col(") ++ columns ++ ")"
      else if allColumns then (if rowExtent.isMany then ".rows(" else ".row(") ++ rows ++ ")"
      else if !rowExtent.isMany && columnExtent.isMany then
        ".col(" ++ rows ++ ").rows(" ++ columns ++ ")"
      else if rowExtent.isMany && !columnExtent.isMany then
        ".row(" ++ rows ++ ").cols(" ++ columns ++ ")"
      else "(" ++ rows ++ ", " ++ columns ++ ")"

def matrixElement (what : String) : Rule := fun id => do
  match ← children id with
  | [] =>
    complain id "Zero" ("matrix " ++ what)
    lessOne
  | [index] => elementAt index
  | [first, second] => matrixPart first second
  | _ =>
    complain id "More than two" ("matrix " ++ what)
    lessOne

/-! ### Cubes -/

def cubePart (id first second : NodeId) (front back : String) : Emit (Option Emission) := do
  let (rows, rowExtent) ← indexArgument first 0
  let (columns, columnExtent) ← indexArgument second 1
  if rowExtent == .unknown || columnExtent == .unknown then lessOne
  else
    Emit.resize id
    Emit.text (front ++ rows ++ ", " ++ columns ++ back)

def cubeBlock (first second third : NodeId) (unknown : Emit (Option Emission)) :
    Emit (Option Emission) := do
  let (rows, rowExtent) ← indexArgument first 0
  let (columns, columnExtent) ← indexArgument second 1
  let (slices, sliceExtent) ← indexArgument third 2
  if [rowExtent, columnExtent, sliceExtent].contains .unknown then unknown
  else Emit.text ("%(name)s(" ++ rows ++ ", " ++ columns ++ ", " ++ slices ++ ")")

def cubeGet : Rule := fun id => do
  match ← children id with
  | [] =>
    complain id "Zero" "cube call"
    lessOne
  | [index] => elementAt index
  | [first, second] => cubePart id first second "_%(name)s(" ")"
  | [first, second, third] => cubeBlock first second third lessOne
  | _ =>
    complain id "More than three" "cube call"
    lessOne

def cubeSet : Rule := fun id => do
  match ← children id with
  | [] =>
    complain id "Zero" "cube set"
    lessOne
  | [index] => elementAt index
  | [first, second] => cubePart id first second "%(name)s(" ", 1)"
  | [first, second, third] => cubeBlock first second third (Emit.call "%(name)s")
  | _ =>
    complain id "More than three" "cube set"
    lessOne

def cubeView : Rule := fun _ =>
  Emit.text ("%(type)s_%(name)s(%(name)s.memptr(), %(name)s.n_rows, " ++
    "%(name)s.n_cols*%(name)s.n_slices, false) ;")

def element? : Shape → Kind → Option Rule
  | .column, .get => some columnGet
  | .column, .set => some columnSet
  | .row, .get => some rowGet
  | .row, .set => some rowSet
  | .matrix, .get => some (matrixElement "call")
  | .matrix, .set => some (matrixElement "set")
  | .cube, .get => some cubeGet
  | .cube, .set => some cubeSet
  | .cube, .resize => some cubeView
  | _, _ => none

end ArmaGen.Rule
