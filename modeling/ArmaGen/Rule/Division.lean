import ArmaGen.Emit.Log
import ArmaGen.Project.Typing

/-!
# Rules for products and quotients

Products and quotients of matrices have a shape that depends on the shapes on both sides. Quotients
of integers are made quotients of decimal numbers.
-/

namespace ArmaGen.Rule

open Edit

/-! ### Element types -/

def isWhole (element : Element) : Bool :=
  element.rank < 2

def requireElement (id : NodeId) : Edit Element := do
  match ← elementOf id with
  | some element => return element
  | none => throw .wrongSort

def widerElement (first second : NodeId) : Edit Element := do
  match ← elementOf first, ← elementOf second with
  | some a, some b => return Datatype.maxElement a b
  | _, _ => throw .wrongSort

def setNumeric (id : NodeId) (shape : Shape) (element : Element) : Edit Unit :=
  setTypeRanks id shape.rank element.rank

/-! ### Products -/

def productShape : Shape → Shape → Except String Shape
  | .column, .scalar => .ok .column
  | .column, .column => .error "colvec*colvec"
  | .column, .row => .ok .matrix
  | .column, .matrix => .error "colvec*matrix"
  | .column, .cube => .error "colvec*cube"
  | .row, .scalar => .ok .row
  | .row, .column => .ok .scalar
  | .row, .row => .error "rowvec*rowvec"
  | .row, .matrix => .ok .matrix
  | .matrix, .scalar => .ok .matrix
  | .matrix, .column => .ok .column
  | .matrix, .row => .error "matrix*rowvec"
  | .matrix, .matrix => .ok .matrix
  | shape, _ => .ok shape

/-- Sets the datatype of a product, given those of the factors so far, or reports that they do not
fit. -/
def setProduct (id : NodeId) (shape : Shape) (element : Element) : List NodeId → Edit Unit
  | [] => setNumeric id shape element
  | factor :: rest => do
    if ← isNumeric factor then
      match ← shapeOf factor with
      | none => throw .wrongSort
      | some next =>
        let start := if shape == .scalar then next else shape
        let shape ← match productShape start next with
          | .ok shape => pure shape
          | .error shapes =>
            error factor ("multiplication shape mismatch, " ++ shapes)
            pure start
        setProduct id shape (Datatype.maxElement element (← requireElement factor)) rest

/-- Whether a factor is the imaginary unit and the other one is a real number. -/
def isImaginary (unit other : NodeId) : Edit Bool := do
  if (← backend unit) == .reserved && (← name unit) == "i" then
    return (← elementRankOf other) < 4
  else return false

def mul : Rule := fun id => do
  let product := Emit.around "" "*" ""
  let first ← child id 0
  let general := do
    match ← shapeOf first with
    | some shape =>
      setProduct id shape (Datatype.maxElement (← requireElement first) .float)
        ((← children id).drop 1)
      product
    | none => throw Failure.wrongSort
  if !(← isNumeric first) then product
  else
    match ← children id with
    | [a, b] =>
      if ← hasShape id .scalar then
        if ← isImaginary a b then
          setValue id (← value b)
          Emit.text "cx_double(0, %(1)s)"
        else if ← isImaginary b a then
          setValue id (← value a)
          Emit.text "cx_double(0, %(0)s)"
        else general
      else general
    | _ => general

def shownTypes (id : NodeId) : Edit String := do
  return "[" ++ ", ".intercalate ((← childTypes id).map fun type => quoted type.name) ++ "]"

def elmul : Rule := fun id => do
  let product := Emit.around "" "*" ""
  if !(← isTyped id) then product
  else if !(← isNumeric id) then
    error id ("non-numerical multiplication " ++ (← shownTypes id))
    product
  else if ← hasShape id .scalar then product
  else if ← hasShape (← child id 0) .scalar then product
  else if ← hasShape (← child id 1) .scalar then product
  else Emit.around "" percentMark ""

/-! ### Quotients by elements -/

/-- Divides texts one after the other, and keeps clear of quotients of whole numbers. -/
def dividedBy (whole : Bool) (dividend : String) : List NodeId → Edit String
  | [] => return dividend
  | divisor :: rest => do
    let text ← str divisor
    let quotient := if (← kind divisor) == .int then dividend ++ "/" ++ text ++ ".0"
      else if whole then dividend ++ "*1.0/" ++ text
      else dividend ++ "/" ++ text
    dividedBy whole quotient rest

def elementDivision : Rule := fun id => do
  let first ← child id 0
  let whole ← if ← isTyped id then do
      let second ← child id 1
      pure (isWhole (← widerElement first second))
    else pure false
  Emit.text (← dividedBy whole (← str first) ((← children id).drop 1))

/-- Divides by texts one after the other, from the right; gives the widest element type too. -/
def dividedInto (dividend : String) (element : Element) :
    List NodeId → Edit (String × Element)
  | [] => return (dividend, element)
  | divisor :: rest => do
    let text ← str divisor
    let dividend := if (← kind divisor) == .int then text ++ ".0/" ++ dividend else dividend
    let next ← requireElement divisor
    dividedInto (text ++ "/" ++ dividend) (Datatype.maxElement element next) rest

def leftElementDivision : Rule := fun id => do
  if !(← isTyped id) then Emit.around "" "\\" ""
  else
    let last ← child id (-1)
    let text ← str last
    let element := Datatype.maxElement (← requireElement last) .float
    let (quotient, element) ← dividedInto text element ((← children id).reverse.drop 1)
    setElement id element
    Emit.text quotient

/-! ### Quotients of matrices -/

def quotientShape : Shape → Shape → Except String Shape
  | .scalar, shape => .ok shape
  | .column, .scalar => .ok .column
  | .column, .column => .error "colvec\\colvec"
  | .column, .row => .ok .matrix
  | .column, .matrix => .error "colvec\\matrix"
  | .column, .cube => .ok .column
  | .row, .scalar => .ok .row
  | .row, .column => .ok .scalar
  | .row, .row => .error "rowvec\\rowvec"
  | .row, .matrix => .ok .row
  | .row, .cube => .ok .matrix
  | .matrix, .scalar => .ok .matrix
  | .matrix, .column => .ok .column
  | .matrix, .row => .error "matrix\\rowvec"
  | .matrix, .matrix => .ok .matrix
  | .matrix, .cube => .ok .cube
  | .cube, _ => .ok .cube

/-- The shape of a quotient; shapes that do not go together are reported. -/
def dividedShape (id : NodeId) (shape divisor : Shape) : Edit Shape := do
  match quotientShape shape divisor with
  | .ok shape => return shape
  | .error shapes =>
    error id ("Matrix division error '" ++ shapes ++ "'")
    return shape

/-- Divides by matrices and numbers one after the other; sets the datatype of the quotient. -/
def matrixQuotient (id : NodeId) (dividend : String) (shape : Shape) (element : Element) :
    List NodeId → Edit String
  | [] => do
    setNumeric id shape element
    return dividend
  | divisor :: rest => do
    let text ← str divisor
    let divisorShape ← shapeOf divisor
    let quotient ← if divisorShape == some .matrix then
        pure ("arma::solve(" ++ text ++ ".t(), " ++ dividend ++ ".t()).t()")
      else if (← kind divisor) == .int then pure (dividend ++ "/" ++ text ++ ".0")
      else do
        let whole := isWhole (← requireElement divisor) && isWhole element
        pure (dividend ++ (if whole then "*1.0/" else "/") ++ text)
    let element := Datatype.maxElement element (← requireElement divisor)
    match divisorShape with
    | some divisorShape =>
      matrixQuotient id quotient (← dividedShape id shape divisorShape) element rest
    | none => throw .wrongSort

def allScalar (id : NodeId) : Edit Bool := do
  let below ← children id
  return !below.isEmpty && (← below.mapM shapeOf).all (· == some .scalar)

def matrixDivision : Rule := fun id => do
  let first ← child id 0
  let text ← str first
  let element := match ← elementOf first with
    | none | some .uword => Element.float
    | some element => element
  let shape := (← shapeOf first).getD .scalar
  if ← allScalar id then elementDivision id
  else Emit.text (← matrixQuotient id text shape element ((← children id).drop 1))

/-- Solves for matrices and divides by numbers one after the other, from the left. -/
def leftMatrixQuotient (id : NodeId) (divisor : String) (shape : Option Shape)
    (element : Option Element) : List NodeId → Edit String
  | [] => do
    match shape, element with
    | some shape, some element =>
      setNumeric id shape element
      return divisor
    | _, _ => throw .wrongSort
  | dividend :: rest => do
    let text ← str dividend
    let rank ← rankOf dividend
    match element with
    | none => throw .wrongSort
    | some element =>
      let next ← requireElement dividend
      let whole := isWhole next && isWhole element
      let quotient := if 0 < rank then "arma::solve(" ++ divisor ++ ", " ++ text ++ ")"
        else "(" ++ divisor ++ ")" ++ (if whole then "*1.0/" else "/") ++ text
      let element := if rank == 0 && whole then .float else element
      let own ← shapeOf id
      let shape ← match shape, own with
        | some .scalar, own => pure own
        | some shape, some own => some <$> dividedShape id shape own
        | shape, _ => pure shape
      leftMatrixQuotient id quotient shape (some (Datatype.maxElement element next)) rest

def leftMatrixDivision : Rule := fun id => do
  if !(← isTyped id) then Emit.around "" "\\" ""
  else
    let first ← child id 0
    let text ← str first
    let element ← elementOf first
    let shape ← shapeOf first
    if ← allScalar id then leftElementDivision id
    else Emit.text (← leftMatrixQuotient id text shape element ((← children id).drop 1))

end ArmaGen.Rule
