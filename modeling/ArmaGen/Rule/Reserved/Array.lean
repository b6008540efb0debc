import ArmaGen.Emit.Auxiliary
import ArmaGen.Emit.Log

/-!
# Rules for reserved functions on arrays

Lengths of arrays, arrays of equal numbers, largest and smallest elements.
-/

namespace ArmaGen.Rule

open Edit

/-! ### Lengths -/

/-- Whether a call takes its arguments as they are: it is not an element of an array. -/
def takesList (id : NodeId) : Edit Bool := do
  let rules ← backend id
  return rules == .reserved || rules == .unknown || rules.isFunction

/-- The lengths of an array: arguments of a call, an element, a variable or a list by where they
stand. -/
def lengths (id : NodeId) (arguments : String) (element? : Option String) :
    Emit (Option Emission) := do
  let above ← parent id
  let aboveKind ← kind above
  let standing := do
    if aboveKind != .statement && aboveKind != .assign then
      Emit.text (← str (← Emit.auxiliaryOwn id))
    else Emit.text ("\x7b" ++ arguments ++ "\x7d")
  if aboveKind == .get then
    if ← takesList above then Emit.text arguments
    else match element? with
      | some element => Emit.text element
      | none => standing
  else standing

def size : Rule := fun id => do
  let array ← child id 0
  let plain := Emit.call "size"
  let known ← isTyped array
  if !known || (← kind (← parent id)) == .assigns then plain
  else
    match ← children id with
    | _ :: axis :: _ =>
      let text ← str array
      match ← value axis with
      | "1" => Emit.text (text ++ ".n_rows")
      | "2" => Emit.text (text ++ ".n_cols")
      | "3" => Emit.text (text ++ ".n_slices")
      | _ => plain
    | _ =>
      match ← shapeOf array with
      | some .column | some .row => lengths id "%(0)s.n_rows, %(0)s.n_cols" none
      | some .matrix =>
        lengths id "%(0)s.n_rows, %(0)s.n_cols" (some "%(0)s.n_rows-1, %(0)s.n_cols")
      | some .cube =>
        lengths id "%(0)s.n_rows, %(0)s.n_cols, %(0)s.n_slices"
          (some "%(0)s.n_rows-1, %(0)s.n_cols-1, %(0)s.n_slices")
      | _ => plain

def assignSize : Rule := fun id => do
  let call ← child id (-1)
  let _ ← shapeOf (← child call 0)
  let single ← match ← childTexts call with
    | [_, axis] => pure (axis == "1" || axis == "2")
    | _ => pure false
  if single then Emit.text "%(0)s = %(1)s ;"
  else
    Emit.text "uword _%(0)s [] = %(1)s ;\n%(0)s = urowvec(_%(0)s, 2, false) ;"

def asVariable (id : NodeId) : Emit NodeId := do
  if (← kind id) == .var then return id else Emit.auxiliaryOwn id

def assignSizes : Rule := fun id => do
  let array ← str (← asVariable (← child (← child id (-1)) 0))
  match ← count id with
  | 3 => Emit.text ("%(0)s = " ++ array ++ ".n_rows ;\n%(1)s = " ++ array ++ ".n_cols ;")
  | 4 => Emit.text ("%(0)s = " ++ array ++ ".n_rows ;\n%(1)s = " ++ array ++
      ".n_cols ;\n%(2)s = " ++ array ++ ".n_slices ;")
  | _ => throw Failure.unsupported

/-! ### Decompositions -/

def assignChol : Rule := fun id => do
  match ← children id with
  | [_, call] => Emit.text ("%(0)s = chol(" ++ joinWith ", " (← childTexts call) ++ ") ;")
  | _ => throw Failure.unreadable

def assignChols : Rule := fun id => do
  let call ← child id (-1)
  match (← childTexts id).dropLast with
  | [factor, failed] =>
    Emit.text (failed ++ " = chol(" ++ factor ++ ", " ++ (← str call) ++ ") ;\n" ++ failed ++
      " = !" ++ failed ++ " ;")
  | targets =>
    Emit.text ("[" ++ joinWith ", " targets ++ "] = chol(" ++
      joinWith ", " (← childTexts call) ++ ") ;")

/-! ### Smallest and largest elements -/

def allNumeric (ids : List NodeId) : Edit Bool := do
  return (← ids.mapM isNumeric).all fun numeric => numeric

/-- Whether some nodes, which have to be numerical, are all single numbers. -/
def allNumbers (ids : List NodeId) : Edit Bool := do
  return (← ids.mapM rankOf).all fun rank => rank == 0

def anyComplex (ids : List NodeId) : Edit Bool := do
  return (← ids.mapM elementOf).any fun element => element == some .complex

/-- The rule for the smallest or largest element. How the axis is read from the third argument
differs. -/
def extreme (name : String) (axis : NodeId → Emit (Option Emission)) : Rule := fun id => do
  let arguments ← children id
  if !(← allNumeric arguments) then Emit.call name
  else if ← allNumbers arguments then
    if ← anyComplex arguments then
      includeFile id "m2cpp"
      let texts ← childTexts id
      let lifted := texts.map fun text => "m2cpp::smat<cx_double>(" ++ text ++ ")"
      Emit.text ("arma::" ++ name ++ "(" ++ joinWith ", " lifted ++ ")")
    else
      includeFile id "algorithm"
      Emit.call ("std::" ++ name)
  else
    match arguments with
    | [_] => Emit.text ("arma::" ++ name ++ "(%(0)s)")
    | [_, _] => Emit.text ("arma::" ++ name ++ "(%(0)s, %(1)s)")
    | [_, _, third] =>
      if ← hasShape third .scalar then axis third else throw Failure.violated
    | _ => throw Failure.violated

def smallest : Rule :=
  extreme "min" fun axis => do
    match ← value axis with
    | "1" => Emit.text "arma::min(%(0)s, 1)"
    | "2" => Emit.text "arma::min(%(0)s, 0)"
    | _ => Emit.text "arma::min(%(0)s, %(2)s-1)"

/-- The rule for the largest element. An axis is not supported, unless it has a value below it. -/
def largest : Rule :=
  extreme "max" fun axis => do
    let _ ← childNamed axis "value"
    Emit.text "arma::max(%(0)s, %(2)s-1)"

def assignExtreme (name : String) (array : NodeId → Edit NodeId) : Rule := fun id => do
  if (← count id) != 3 then throw Failure.violated
  let array ← array id
  if !(← isNumeric array) then
    return some (.pieces ["[", ", ", "] = " ++ name ++ "(", ") ;"])
  else
    Emit.text ("%(0)s = " ++ (← str (← asVariable array)) ++ "." ++ name ++ "(%(1)s) ;")

/-! ### Making arrays -/

def eye : Rule := fun id => do
  let first ← child id 0
  if !(← isNumeric first) then Emit.call "eye"
  else
    match ← count id with
    | 1 =>
      if ← hasShape first .scalar then Emit.text "arma::eye<%(type)s>(%(0)s, %(0)s)"
      else Emit.text "arma::eye<%(type)s>(%(0)s(0), %(0)s(1))"
    | 2 => Emit.text "arma::eye<%(type)s>(%(0)s, %(1)s)"
    | _ => throw Failure.unsupported

def isAssigned (id : NodeId) : Edit Bool := do
  let above ← parent id
  if (← kind above) == .assign then return (← child above 0) != id else return false

def isLiteralOne (id : NodeId) : Edit Bool := do
  let node ← node id
  return node.kind == .int && node.value == "1"

/-- Arrays of equal numbers by one argument: the length of both axes, or the lengths of all. -/
def filledBySize (id first : NodeId) (function : String) : Emit (Option Emission) := do
  let general := Emit.call function
  let byVector := do
    let vector ← if ← isNumeric first then do
        let shape ← shapeOf first
        pure (shape == some .column || shape == some .row)
      else pure false
    if vector then
      let _ ← asVariable first
      match ← shapeOf id with
      | some .column | some .row => Emit.text (function ++ "(%(0)s(0))")
      | some .matrix => Emit.text (function ++ "(%(0)s(0), %(0)s(1))")
      | some .cube => Emit.text (function ++ "(%(0)s(0), %(0)s(1), %(0)s(2))")
      | _ => general
    else general
  let scalar ← if ← isNumeric first then hasShape first .scalar else pure false
  if scalar then
    if ← hasShape id .matrix then Emit.text (function ++ "(%(0)s, %(0)s)") else general
  else byVector

def filled (name : String) : Rule := fun id => do
  let function := "arma::" ++ name ++ "<%(type)s>"
  match ← children id with
  | [first] =>
    let bySize := (← backend first) == .reserved && (← Edit.name first) == "size"
    let assigned ← if bySize then isAssigned id else pure false
    if assigned then
      let target ← child (← parent id) 0
      Emit.call ("arma::" ++ name ++ "<" ++ (← typeOf target).name ++ ">")
    else filledBySize id first function
  | [first, second] =>
    match ← shapeOf id with
    | some .matrix => Emit.text (function ++ "(%(0)s, %(1)s)")
    | some .column | some .row =>
      if ← isLiteralOne first then Emit.text (function ++ "(%(1)s)")
      else if ← isLiteralOne second then Emit.text (function ++ "(%(0)s)")
      else Emit.call function
    | _ => Emit.call function
  | _ => Emit.call function

def rand : Rule := fun id => do
  let first ← child id 0
  if !(← isTyped first) then Emit.call "arma::randu<TYPE>"
  else
    match ← count id with
    | 1 => Emit.text "arma::randu<vec>(%(0)s)"
    | 2 => Emit.text "arma::randu<mat>(%(0)s, %(1)s)"
    | 3 => Emit.text "arma::randu<cube>(%(0)s, %(1)s, %(2)s)"
    | _ => throw Failure.unsupported

end ArmaGen.Rule
