import ArmaGen.Infer.Backend
import ArmaGen.Infer.Calls
import ArmaGen.Infer.Indexing
import ArmaGen.Project.Traverse

/-!
# Datatypes by kind of node

For each kind of node the rule by which its datatype follows from the nodes around it: operators
take what covers their operands, variables take that of their declaration, for which assignments
suggest one.
-/

namespace ArmaGen.Edit

/-! ### Variables -/

def adoptDeclared (id : NodeId) : Edit Unit := do
  if ← isTyped (← declaration id) then setType id (← typeOf (← declaration id))

def suggestAssigned (id assign : NodeId) : Edit Unit := do
  let type ← typeOf (← child assign 1)
  suggestType (← declaration id) type

/-- Whether a node is what an assignment assigns to; `whole` counts every place in it. -/
def isTarget (id : NodeId) (whole : Bool) : Edit Bool := do
  let parent ← parent id
  if (← kind parent) != .assign then return false
  else if whole then return true
  else isChildAt parent 0 id

def adoptRecord (id source : NodeId) (rules : RuleSet) : Edit Unit := do
  let _ ← declaration source
  match (← node source).declare? with
  | none => return ()
  | some declared =>
    let own ← declaration id
    setTypeNamed own rules.name
    let own ← declaration id
    setBackend own rules
    let own ← declaration id
    update own fun node => { node with declare? := some declared }
    update id fun node => { node with declare? := some declared }
    setBackend id rules

def collectsField (id : NodeId) : Edit Bool := do
  let node ← node id
  if node.kind == .matrix && node.backend == .structs then
    return (← count (← child id 0)) == 1
  else return false

/-- Suggests datatypes for a variable that is assigned to: a column for collected fields, a record
for a record, else the datatype of what is assigned. -/
def inferTarget (id assign : NodeId) : Edit Unit := do
  let assigned ← child assign 1
  if ← collectsField assigned then
    let element := (← elementOf assigned).map fun element => (element.rank : Int)
    suggest (← declaration id) (.ranks (some 1) element)
  else
    let node ← node assigned
    if node.kind == .var && node.backend.isRecord then adoptRecord id assigned node.backend
    else suggestAssigned id assign

def inferVar (id : NodeId) : Edit Unit := do
  if !(← inferAsCall id) then
    if ← isTarget id false then inferTarget id (← parent id)
    adoptDeclared id

def indexedBy : Shape → Option (NodeId → Edit Unit)
  | .scalar => none
  | .column => some indexColumn
  | .row => some indexRow
  | .matrix => some indexMatrix
  | .cube => some indexCube

/-- The rule for indexed names whose declaration is an array; tells whether it is one. -/
def inferIndexed (id : NodeId) : Edit Bool := do
  match (← shapeOf (← declaration id)).bind indexedBy with
  | none => return false
  | some index =>
    chooseByType id
    index id
    return true

def inferGet (id : NodeId) : Edit Unit := do
  if !(← inferAsCall id) then
    if !(← inferIndexed id) then
      if ← isTarget id false then suggestAssigned id (← parent id)
      adoptDeclared id

def inferSet (id : NodeId) : Edit Unit := do
  if !(← inferIndexed id) then
    if ← isTarget id true then suggestAssigned id (← parent id)
    adoptDeclared id

/-- The rule for fields; `whole` counts every place in an assignment as its target. -/
def inferField (whole : Bool) (id : NodeId) : Edit Unit := do
  if ← isTarget id whole then suggestAssigned id (← parent id)
  adoptDeclared id

/-! ### Matrices -/

def childShapes (id : NodeId) : Edit (List (Option Shape)) := do
  return (← (← children id).mapM shapeOf).eraseDups

def sameShapes (found : List (Option Shape)) (wanted : List Shape) : Bool :=
  found.all (fun shape => (wanted.map some).contains shape) &&
    wanted.all fun shape => found.contains (some shape)

def scalarsOnly : String := "scalarsonly"

def rowShape? (shapes : List (Option Shape)) : Option Shape :=
  if sameShapes shapes [.column] then some .column
  else if sameShapes shapes [.scalar] || sameShapes shapes [.row] ||
      sameShapes shapes [.scalar, .row] then some .row
  else if sameShapes shapes [.matrix] || sameShapes shapes [.column, .matrix] then some .matrix
  else none

def inferVector (id : NodeId) : Edit Unit := do
  setCommonType id (← childTypes id)
  let shapes ← childShapes id
  let elements ← children id
  let numeric ← if shapes.contains none then pure false
    else pure ((← elements.mapM isNumeric).all fun numeric => numeric)
  match elements with
  | [element] =>
    if !numeric then setType id (← typeOf element)
    else
      setValue id (if sameShapes shapes [.scalar] then scalarsOnly else "")
      match shapes with
      | some shape :: _ => setShape id shape
      | _ => return ()
  | _ =>
    if numeric then
      if sameShapes shapes [.scalar] then setValue id scalarsOnly
      match rowShape? shapes with
      | some shape => setShape id shape
      | none => return ()

def inferMatrix (id : NodeId) : Edit Unit := do
  setCommonType id (← childTypes id)
  let shapes ← childShapes id
  let rows ← children id
  let width := do count (← child id 0)
  if rows.length == 1 && (← width) == 0 then clearType id
  else
    let values ← rows.mapM value
    if values.all fun value => !value.isEmpty then
      setValue id scalarsOnly
      let width ← width
      setShape id <| match decide (rows.length > 1), decide (width > 1) with
        | true, true => .matrix
        | true, false => .column
        | false, true => .row
        | false, false => .scalar
    else if sameShapes shapes [.scalar, .column] || sameShapes shapes [.column] then
      setShape id (if (← width) > 1 then .matrix else .column)
    else if sameShapes shapes [.row] && rows.length == 1 then setShape id .row
    else if sameShapes shapes [.row] || sameShapes shapes [.matrix] ||
        sameShapes shapes [.row, .matrix] then setShape id .matrix

/-! ### Operators -/

def inferOperator (id : NodeId) : Edit Unit := do
  setCommonType id (← childTypes id)

def inferTranspose (id : NodeId) : Edit Unit := do
  let operand ← child id 0
  setType id (← typeOf operand)
  if ← isNumeric operand then
    match ← shapeOf operand with
    | some .column => setShape id .row
    | some .row => setShape id .column
    | _ => return ()

def makeSigned (id : NodeId) : Edit Unit :=
  setElement id .int

def inferNeg (id : NodeId) : Edit Unit := do
  let operand ← child id 0
  setType id (← typeOf operand)
  if ← hasElement operand .uword then makeSigned id

def inferMinus (id : NodeId) : Edit Unit := do
  inferOperator id
  if ← hasElement id .uword then makeSigned id

/-- The rule for powers and quotients: of integers they are doubles. -/
def inferFraction (id : NodeId) : Edit Unit := do
  inferOperator id
  if ← isNumeric id then
    if (← elementRankOf id) < 2 then setElement id .double

/-- The rule for ranges: as an index they hold unsigned numbers. -/
def inferColon (id : NodeId) : Edit Unit := do
  let group ← group id
  let above ← node (← parent id)
  if (← kind group).isIndexed && !above.backend.isFunction then setType id .uvec
  else
    -- the datatypes around are looked up, and the range is a row whatever they are
    if (← kind group) == .matrix then
      let _ ← isNumeric group
    else if !above.kind.isIndexed && (← kind group) == .assign then
      let _ ← isNumeric (← child group 0)
    setType id .rowvec

def inferAssign (id : NodeId) : Edit Unit := do
  let assigned ← child id 1
  if ← isTyped assigned then setType id (← typeOf assigned)

def inferAssigns (id : NodeId) : Edit Unit := do
  let assigned ← child id (-1)
  if ← isTyped assigned then setType id (← typeOf assigned)

/-! ### Anonymous functions -/

def isFree : Kind → Bool
  | .var | .cvar | .fvar | .get | .cget | .fget | .nget => true
  | _ => false

/-- Gives a node of an anonymous function, and its declaration, the datatype of a variable in some
list. -/
def adoptOuter (id list : NodeId) (name : String) : Edit Unit := do
  let type ← typeOf (← childNamed list name)
  setType id type
  setType (← declaration id) type

/-- Gives nodes of an anonymous function that name variables of the function around it the datatypes
of these. -/
def adoptFree (own : List String) (declares params : NodeId) : List NodeId → Edit Unit
  | [] => return ()
  | id :: rest => do
    let node ← node id
    if isFree node.kind && !own.contains node.name then
      if ← hasChild params node.name then adoptOuter id params node.name
      else if ← hasChild declares node.name then adoptOuter id declares node.name
    adoptFree own declares params rest

/-- The rule for references to anonymous functions: the function is configured on its own. -/
def inferLambda (configure : NodeId → Edit Unit) (id : NodeId) : Edit Unit := do
  let name ← name id
  let lambda ← childNamed (← funcsOf id) name
  let (ownDeclares, _, ownParams, ownBlock) ← functionParts lambda
  let own := (← names ownParams) ++ (← names ownDeclares)
  let expr ← child (← child ownBlock 0) 1
  let (declares, _, params, _) ← functionParts (← func id)
  adoptFree own declares params ((← get).levels false expr)
  configure lambda
  if ← isTyped (← childNamed ownDeclares "_retval") then
    setType (← childNamed declares (dropChars 1 name)) .lambda
    let parent ← parent id
    setType parent .lambda
    setType (← child parent 0) .lambda
  setType id .lambda

/-! ### All kinds -/

def datatypeRule? (configure : NodeId → Edit Unit) : Kind → Option (NodeId → Edit Unit)
  | .counter => some fun id => setType id .structs
  | .var => some inferVar
  | .get => some inferGet
  | .set => some inferSet
  | .fvar => some (inferField false)
  | .fset | .sset => some (inferField true)
  | .assign => some inferAssign
  | .assigns => some inferAssigns
  | .vector => some inferVector
  | .matrix => some inferMatrix
  | .transpose | .ctranspose => some inferTranspose
  | .forLoop => some fun id => do suggestType (← child id 0) .int
  | .neg => some inferNeg
  | .plus | .mul | .elmul | .paren => some inferOperator
  | .minus => some inferMinus
  | .exp | .matrixDivision | .elementDivision | .leftMatrixDivision => some inferFraction
  | .endIndex | .int => some fun id => setType id .int
  | .float => some fun id => setType id .double
  | .string => some fun id => setType id .string
  | .imag => some fun id => setType id .complex
  | .wholeIndex => some fun id => setType id .uvec
  | .colon => some inferColon
  | .lambda => some (inferLambda configure)
  | _ => none

end ArmaGen.Edit
