import ArmaGen.Emit.Include
import ArmaGen.Rule.Assign
import ArmaGen.Rule.Division

/-!
# Rules for operators
-/

namespace ArmaGen.Rule

open Edit

/-! ### Indices -/

def argumentSteps : Nat → NodeId → Edit NodeId
  | 0, _ => throw .endless
  | n + 1, id => do
    let above ← parent id
    let kind ← kind above
    if kind.isIndexed || kind == .block then return id else argumentSteps n above

def endIndex : Rule := fun id => do
  let argument ← argumentSteps (← height) id
  let indexed ← parent argument
  let name ← name indexed
  match (← children indexed).idxOf? argument with
  | some 0 => Emit.text (name ++ ".n_rows")
  | some 1 => Emit.text (name ++ ".n_cols")
  | some 2 => Emit.text (name ++ ".n_slices")
  | _ =>
    error id "end statement in arg>3"
    return none

def wholeIndex : Rule := fun id => do
  let above ← parent id
  let length := fun (axis : String) => do
    Emit.text ("m2cpp::span<uvec>(0, " ++ (← name above) ++ axis ++ "-1)")
  if ← isChildAt above 0 id then length ".n_rows"
  else if ← isChildAt above 1 id then length ".n_cols"
  else if ← isChildAt above 2 id then length ".n_slices"
  else Emit.text "span::all"

/-- The rule for ranges. Ranges of an index count from zero. -/
def colon : Rule := fun id => do
  let above ← parent id
  let length ← count id
  let indexed ← if (← kind above).isIndexed then isNumeric above else pure false
  if indexed then
    match length with
    | 2 =>
      let shape ← shapeOf id
      if shape == some .column || shape == some .row then
        Emit.text "arma::span(%(0)s-1, %(1)s-1)"
      else Emit.text "m2cpp::span<%(type)s>(%(0)s-1, %(1)s-1)"
    | 3 => Emit.text "m2cpp::span<%(type)s>(%(0)s-1, %(1)s, %(2)s-1)"
    | _ => Emit.call "m2cpp::span<%(type)s>"
  else
    includeFile id "m2cpp"
    Emit.call ("m2cpp::span<" ++ (← typeOf id).name ++ ">")

/-! ### Sums, powers and transposed matrices -/

def complexTerm (id : NodeId) : Edit String := do
  let text ← str id
  if (← elementRankOf id) < 4 then return "cx_double(" ++ text ++ ", 0)" else return text

def plus : Rule := fun id => do
  if !(← isNumeric id) then error id ("non-numerical addition " ++ (← shownTypes id))
  if (← hasElement id .complex) && (← hasShape id .scalar) then
    let terms ← ((← children id).mapM complexTerm : Edit (List String))
    Emit.text (joinWith "+" terms)
  else Emit.around "" "+" ""

def power : Rule := fun id => do
  let base ← str (← child id 0)
  let exponents ← childTexts id
  Emit.text ((exponents.drop 1).foldl (fun text exponent =>
    "pow(" ++ text ++ ", " ++ exponent ++ ")") base)

/-- Makes a node a row if what it transposes is a column, and the other way round. -/
def transposeShape (id : NodeId) : Edit Unit := do
  match ← shapeOf (← child id 0) with
  | some .column => setShape id .row
  | some .row => setShape id .column
  | _ => return ()

def transpose : Rule := fun id => do
  if !(← isNumeric id) then Emit.text "arma::strans(%(0)s)"
  else
    transposeShape id
    if (← elementRankOf id) < 4 then Emit.around "arma::strans(" "" ")"
    else Emit.around "arma::trans(" "" ")"

def ctranspose : Rule := fun id => do
  if ← isNumeric id then transposeShape id
  Emit.around "arma::trans(" "" ")"

/-! ### Leaving functions -/

/-- The rule for leaving a function, with its result if it has a single one. -/
def returnCall : Rule := fun id => do
  let func ← func id
  let rules ← backend func
  if rules == .funcReturns then Emit.text "return"
  else if rules == .lambda then Emit.text "return _retval"
  else Emit.text ("return " ++ (← name (← child (← child func 1) 0)))

def operatorText? : Kind → Option String
  | .minus => some "-"
  | .gt => some ">"
  | .ge => some ">="
  | .lt => some "<"
  | .le => some "<="
  | .ne => some "~="
  | .eq => some "=="
  | .band => some "&&"
  | .land => some "&"
  | .bor => some "||"
  | .lor => some "|"
  | _ => none

def expressionRule? : Kind → Option Rule
  | .paren => some fun _ => Emit.text "(%(0)s)"
  | .endIndex => some endIndex
  | .breakLoop => some fun _ => Emit.text "break"
  | .returnCall => some returnCall
  | .mul => some mul
  | .elmul => some elmul
  | .plus => some plus
  | .elementDivision => some elementDivision
  | .leftElementDivision => some leftElementDivision
  | .matrixDivision => some matrixDivision
  | .leftMatrixDivision => some leftMatrixDivision
  | .exp | .elexp => some power
  | .wholeIndex => some wholeIndex
  | .neg => some fun _ => Emit.around "-(" "" ")"
  | .not => some fun _ => Emit.around "not " "" ""
  | .transpose => some transpose
  | .ctranspose => some ctranspose
  | .colon => some colon
  | .assign => some assign
  | kind => (operatorText? kind).map fun operator _ => Emit.around "" operator ""

end ArmaGen.Rule
