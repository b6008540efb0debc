import ArmaGen.Emit.Auxiliary
import ArmaGen.Rule.Assign

/-!
# Rules for matrices

A matrix of plain numbers becomes a list of numbers that an array is made of, in a variable of its
own where the list cannot stand. Rows and columns of other values are joined.
-/

namespace ArmaGen.Rule

open Edit

/-! ### Joining -/

def storedName : Element → String
  | .int => "sword"
  | element => element.scalarName

/-- The widest element type of some nodes; none if no datatype is numerical, or one is not
recognised. -/
def widestElement (ids : List NodeId) : Edit (Option Element) := do
  try
    let elements ← ids.filterMapM elementOf
    return elements.foldl (fun widest element => match widest with
      | some other => some (Datatype.maxElement other element)
      | none => some element) none
  catch _ => return none

def isPlain (id : NodeId) : Edit Bool := do
  if (← value id) != "" then return true else hasShape id .scalar

/-- What is emitted for a node, made an array by a function of the library if it is plain. -/
def lifted (function : String) (element : Option Element) (id : NodeId) : Edit String := do
  let text ← str id
  if ← isPlain id then
    includeFile id "m2cpp"
    let parameter := match element with
      | some element => "<" ++ storedName element ++ ">"
      | none => ""
    return "m2cpp::" ++ function ++ parameter ++ "(" ++ text ++ ")"
  else return text

def joinBy (function : String) : List String → Option String
  | [] => none
  | first :: rest =>
    some (rest.foldl (fun text next => function ++ "(" ++ text ++ ", " ++ next ++ ")") first)

def shapesOf (ids : List NodeId) : Edit (List (Option Shape)) :=
  ids.mapM shapeOf

def valuesOf (ids : List NodeId) : Edit (List String) :=
  ids.mapM value

def areShapes (shapes : List (Option Shape)) (set : List Shape) : Bool :=
  shapes.all (fun shape => set.any fun other => some other == shape) &&
    set.all fun shape => shapes.contains (some shape)

/-! ### Rows -/

def vector : Rule := fun id => do
  if (← value id) == "scalarsonly" then Emit.around "" ", " ""
  else if (← typeOf id) == .string then Emit.around "" " + " ""
  else
    let elements ← children id
    let widest ← widestElement elements
    let texts ← elements.mapM fun element => lifted "srow" widest element
    Emit.text ((joinBy "arma::join_rows" texts).getD "")

/-! ### Matrices -/

def braced : Emit (Option Emission) :=
  Emit.around "\x7b" ", " "\x7d"

def joinedRows? (rows : List NodeId) : Emit (Option String) := do
  let shapes ← shapesOf rows
  if [[.scalar, .column], [.column], [.scalar, .matrix], [.scalar, .column, .matrix]].any
      (areShapes shapes) then
    let texts ← rows.mapM fun row => do lifted "scol" (← widestElement rows) row
    return joinBy "arma::join_cols" texts
  else if [[.row], [.matrix], [.row, .matrix], [.column, .matrix]].any (areShapes shapes) then
    let texts ← rows.mapM fun row => do
      if (← value row) != "" then str (← Emit.auxiliaryOwn row) else str row
    return joinBy "arma::join_cols" texts
  else return none

/-- A matrix of plain numbers: a list of numbers where one can stand, a variable elsewhere. -/
def plainMatrix : Rule := fun id => do
  let above ← parent id
  let aboveKind ← kind above
  if aboveKind == .assign || aboveKind == .statement || (← backend above) == .reserved then
    braced
  else
    if (aboveKind == .get || aboveKind == .set) && !(← hasElement id .uword) then
      let element := if ← isTyped above then Element.uword else Element.double
      setTypeRanks id (← rankOf id) element.rank
    Emit.text (← str (← Emit.auxiliaryOwn id))

def requireEqualRows (id : NodeId) : Edit Unit := do
  let length ← count (← child id 0)
  let rows ← (← children id).filterM fun row => return (← value row) == "scalarsonly"
  let lengths ← rows.mapM count
  if lengths.any (· != length) then
    error id ("shape missmatch [" ++ ", ".intercalate (lengths.map toString) ++ "]")

def matrix : Rule := fun id => do
  requireEqualRows id
  let rows ← children id
  let first ← child id 0
  let above ← name (← parent id)
  if (← typeOf id) == .string then
    Emit.around "" (if rows.length > 1 then " + " else " ") ""
  else if above == "imagesc" || above == "wigb" then
    let shapes ← shapesOf (← children first)
    if shapes.all (· == some .scalar) then Emit.around "\x7b\x7b" ", " "\x7d\x7d"
    else if above == "wigb" then braced
    else Emit.around "" ", " ""
  else if !(← isNumeric id) then
    match ← children first with
    | [only] => if (← kind only) == .colon then Emit.around "" ", " "" else braced
    | _ => braced
  else
    let _ ← shapesOf rows
    if rows.length == 1 && (← count first) == 0 then braced
    else if (← valuesOf rows).all (· != "") then plainMatrix id
    else
      match ← joinedRows? rows with
      | some text => Emit.text text
      | none =>
        error id "No match for handling matrix arg found"
        braced

/-! ### Assignments of matrices -/

/-- The lines that make an array of a list of numbers with a name of its own, and assign it. -/
def assignList (id target : NodeId) (build : String → String) :
    Edit (Option Emission) := do
  let type ← typeOf id
  let stored := if type == .int then "sword" else type.name
  let name ← name target
  return some (.text (stored ++ " _" ++ name ++ " [] = %(1)s ;\n%(0)s = " ++
    build ("_" ++ name) ++ " ;"))

def setCount (id : NodeId) (key : ExtraKey) (n : Nat) : Edit Unit :=
  update id (·.setExtra key (.count n))

def assignPlain (id target matrix : NodeId) : Edit (Option Emission) := do
  let length ← count (← child matrix 0)
  let rows ← count matrix
  match ← shapeOf matrix with
  | some .scalar => scalarAssign id
  | some .column =>
    setCount id .rows (length * rows)
    assignList id target fun list => "%(ctype)s(" ++ list ++ ", %(rows)s, false)"
  | some .row =>
    setCount id .cols (length * rows)
    assignList id target fun list => "%(ctype)s(" ++ list ++ ", %(cols)s, false)"
  | some .matrix =>
    setCount id .rows length
    setCount id .cols rows
    assignList id target fun list =>
      "arma::strans(%(ctype)s(" ++ list ++ ", %(rows)s, %(cols)s, false))"
  | _ => throw .violated

def assignMatrix : Rule := fun id => do
  let (target, matrix) ← sides id
  let kind ← kind matrix
  if kind != .matrix && kind != .cell then throw Failure.violated
  if (← count (← child matrix 0)) == 0 then Emit.text "%(0)s.reset() ;"
  else
    let numeric ← if ← isNumeric target then isNumeric matrix else pure false
    if !numeric then Emit.text "%(0)s = %(1)s ;"
    else
      let type ← typeOf target
      setType id type
      update id (·.setExtra .ctype (.text type.name))
      let rank ← rankOf id
      setShape id .scalar
      if (← value matrix) != "" then assignPlain id target matrix
      else
        setShapeRank id rank
        assign id

def matrixCell : Rule := fun id => do
  let above ← kind (← parent id)
  if above != .assign && above != .assigns then
    let _ ← Emit.auxiliaryOwn id
  braced

def matrixRule? : Kind → Option Rule
  | .statement => some fun _ => Emit.text "%(0)s ;"
  | .vector => some vector
  | .matrix => some matrix
  | .assign => some assignMatrix
  | .var => some fun _ => Emit.text "%(name)s"
  | .cell => some matrixCell
  | _ => none

end ArmaGen.Rule
