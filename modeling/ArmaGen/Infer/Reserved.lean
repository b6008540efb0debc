import ArmaGen.Infer.Context
import ArmaGen.Infer.Indexing

/-!
# Datatypes of reserved names

The rules by which calls of reserved functions get their datatypes from their arguments and from
where they stand.
-/

namespace ArmaGen.Edit

/-! ### Elementwise functions -/

def takeFirst (id : NodeId) : Edit Unit := do
  setType id (← typeOf (← child id 0))

def inferSqrt (id : NodeId) : Edit Unit := do
  match ← children id with
  | [] => return ()
  | arg :: _ =>
    if (← kind arg) == .neg then setType id .complex else setType id (← typeOf arg)

def inferAbs (id : NodeId) : Edit Unit := do
  let type ← typeOf (← child id 0)
  setType id (if type == .complex || type == .cxMat then .mat else type)

def inferRound (id : NodeId) : Edit Unit := do
  match ← children id with
  | [arg] =>
    if ← hasShape arg .scalar then
      if !(← hasElement arg .complex) then setType id .double
    else setType id (← typeOf arg)
  | _ => return ()

def inferFloor (id : NodeId) : Edit Unit := do
  let arg ← child id 0
  if ← isTyped arg then
    if (← elementRankOf arg) > 1 then
      match ← shapeOf arg with
      | some shape => setTypeRanks id shape.rank 1
      | none => throw .wrongSort

def inferReal (id : NodeId) : Edit Unit := do
  let arg ← child id 0
  if ← isNumeric arg then
    if ← hasElement arg .complex then
      setType id (← typeOf arg)
      setElement id .double

/-! ### Reductions -/

/-- Whether some elements fulfil a condition: along an axis, if one is given. -/
def inferAny (id : NodeId) : Edit Unit := do
  let arg ← child id 0
  if ← isNumeric arg then
    setType id (← typeOf arg)
    match ← shapeOf id with
    | some .column | some .row => setShape id .scalar
    | some .matrix =>
      match ← children id with
      | [_, axis] =>
        let axis ← node axis
        if axis.kind != .int then clearType id
        else if axis.value == "1" then setShape id .row
        else if axis.value == "2" then setShape id .column
      | _ => return ()
    | _ => setShape id .matrix

/-- Whether all nodes are known to be numbers or arrays, with at least one array among them. -/
def comparesArrays (ids : List NodeId) : Edit Bool := do
  let numeric ← ids.mapM isNumeric
  if numeric.all fun numeric => numeric then
    return !((← ids.mapM rankOf).all fun rank => rank == 0)
  else return false

def lessAxis (id : NodeId) (rank : Nat) : Edit Unit :=
  setShapeRank id (if rank == 2 then 0 else (rank : Int) - 1)

def inferMin (id : NodeId) : Edit Unit := do
  let args ← children id
  if !(← comparesArrays args) then
    if (← args.mapM elementOf).any fun element => element == some .complex then
      setType id .cxMat
  else
    takeFirst id
    match args with
    | [_] => lessAxis id (← rankOf id)
    | [_, _, axis] =>
      if ← hasShape axis .scalar then
        let axis ← value axis
        if axis == "1" then setShape id .row
        else if axis == "2" then setShape id .column
        else clearType id
    | _ => return ()

def inferSum (id : NodeId) : Edit Unit := do
  let arg ← child id 0
  if ← isNumeric arg then
    let rank ← rankOf arg
    if rank != 0 then
      setType id (← typeOf arg)
      if rank == 3 then
        let along ← match ← children id with
          | [_, axis] => do
            let axis ← node axis
            pure (axis.kind == .int && axis.value == "2")
          | _ => pure false
        setShape id (if along then .column else .row)
      else lessAxis id rank

/-! ### Sizes -/

def markSize (id : NodeId) : Edit Unit := do
  let parent ← parent id
  match ← kind parent with
  | .statement | .assign =>
    setBackend parent .reserved
    setName parent "size"
  | _ => return ()

def isCompared (id : NodeId) : Edit Bool := do
  let above ← node (← parent id)
  return above.backend == .reserved && (above.name == "min" || above.name == "max")

def inferSize (id : NodeId) : Edit Unit := do
  let arg ← child id 0
  if !(← isTyped arg) then return ()
  else if (← kind (← parent id)) == .assigns then return ()
  else if (← count id) > 1 then setType id .uword
  else
    match ← shapeOf arg with
    | some .column | some .row | some .matrix =>
      setType id .urowvec
      if ← isCompared id then setType id .uword else markSize id
    | some .cube =>
      setType id .urowvec
      markSize id
    | _ => return ()

def suggestFirst (id : NodeId) (type : Datatype) : Nat → Edit Unit
  | 0 => return ()
  | n + 1 => do
    suggestFirst id type n
    suggestType (← child id n) type

def inferSizes (id : NodeId) : Edit Unit := do
  match ← count id with
  | 3 => suggestFirst id .int 2
  | 4 => suggestFirst id .int 3
  | _ => return ()

/-- Suggests datatypes for the value and the place of a least or greatest element. -/
def suggestExtremum (id arg : NodeId) : Edit Unit := do
  if ← isNumeric arg then
    let element := (← elementOf arg).map fun element => (element.rank : Int)
    suggest (← child id 0) (.ranks (some 0) element)
    suggestType (← child id 1) .int

def inferMins (id : NodeId) : Edit Unit := do
  if (← count id) != 3 then throw .violated
  else suggestExtremum id (← child (← child id 2) 0)

def inferMaxs (id : NodeId) : Edit Unit := do
  if (← count id) != 3 then throw .violated
  else suggestExtremum id (← child id (-1))

/-! ### Arrays that are made -/

def inferEye (id : NodeId) : Edit Unit := do
  let group ← group id
  let complex ← if (← kind group) == .assign then hasElement (← child group 0) .complex
    else pure false
  setType id (if complex then .cxMat else .mat)

def filledShape (expected : Expectation) : Shape :=
  match expected.shape with
  | some .column => .column
  | some .row => .row
  | _ => .matrix

def shapeFilled (id : NodeId) (expected : Expectation) : Edit Unit := do
  match ← children id with
  | [arg] =>
    let counted ← if ← isNumeric arg then do
        let shape ← shapeOf arg
        pure (shape == some .column || shape == some .row)
      else pure false
    if !counted then setShape id (filledShape expected)
  | [first, second] =>
    if expected.shape == some .matrix then setShape id .matrix
    else if ← isOne first then setShape id .row
    else if ← isOne second then setShape id .column
    else setShape id .matrix
  | [_, _, _] => setShape id .cube
  | _ => return ()

/-- Whether a node stands among the indices of an array or the arguments of a typed call. -/
def isIndexing (id : NodeId) : Edit Bool := do
  let group ← group id
  if (← kind group).isIndexed then isNumeric group else return false

/-- Arrays of zeros or ones: their elements and shape follow from where they stand. -/
def inferFilled (id : NodeId) : Edit Unit := do
  setType id .uword
  let expected ← expectation id
  setElement id (expected.element.getD .double)
  if ← isIndexing id then
    setElement id .uword
    match ← children id with
    | [first, _] =>
      if ← isOne first then setShape id .column else shapeFilled id expected
    | _ => shapeFilled id expected
  else shapeFilled id expected

def inferRand (id : NodeId) : Edit Unit := do
  if ← isTyped (← child id 0) then
    match ← count id with
    | 1 => setType id .vec
    | 2 => setType id .mat
    | 3 => setType id .cube
    | _ => return ()

/-! ### Transposes and transforms -/

def inferTransposed (id : NodeId) : Edit Unit := do
  let arg ← child id 0
  let ranks := fun (shape : Shape) => do
    match ← elementOf arg with
    | some element => setTypeRanks id shape.rank element.rank
    | none => throw .wrongSort
  match ← shapeOf arg with
  | some .column => ranks .row
  | some .row => ranks .column
  | _ => setType id (← typeOf arg)

def inferFft (id : NodeId) : Edit Unit := do
  takeFirst id
  if ← hasElement id .complex then setElement id .double

def inferIfft (id : NodeId) : Edit Unit := do
  takeFirst id
  if ← isNumeric id then setElement id .complex

def inferInterp (id : NodeId) : Edit Unit := do
  if (← count id) > 0 then takeFirst id

def inferConv (id : NodeId) : Edit Unit := do
  let first ← typeOf (← child id 0)
  let second ← typeOf (← child id 1)
  setCommonType id [first, second]

/-! ### All names -/

def reservedCallRule? : String → Option (NodeId → Edit Unit)
  | "linspace" => some fun id => setType id .rowvec
  | "sqrt" => some inferSqrt
  | "abs" => some inferAbs
  | "any" | "all" => some inferAny
  | "isequal" | "nextpow2" => some fun id => setType id .int
  | "size" => some inferSize
  | "length" => some fun id => setType id .uword
  | "min" | "max" => some inferMin
  | "eye" | "diag" => some inferEye
  | "transpose" | "ctranspose" => some inferTransposed
  | "zeros" | "ones" => some inferFilled
  | "round" => some inferRound
  | "rand" => some inferRand
  | "floor" => some inferFloor
  | "fft" => some inferFft
  | "ifft" => some inferIfft
  | "interp1" => some inferInterp
  | "sum" => some inferSum
  | "conj" => some fun id => setType id .cxMat
  | "real" => some inferReal
  | "convmtx" => some takeFirst
  | "conv2" => some inferConv
  | "tic" | "toc" => some fun id => setType id .string
  | _ => none

def reservedRule? (kind : Kind) (name : String) : Option (NodeId → Edit Unit) :=
  match kind, name with
  | .get, name => reservedCallRule? name
  | .var, "pi" => some fun id => setType id .double
  | .var, "eye" => some inferEye
  | .var, "rand" => some fun id => setType id .vec
  | .assigns, "size" => some inferSizes
  | .assigns, "min" => some inferMins
  | .assigns, "max" => some inferMaxs
  | _, _ => none

end ArmaGen.Edit
