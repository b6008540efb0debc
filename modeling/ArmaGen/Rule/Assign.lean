import ArmaGen.Emit.Log
import ArmaGen.Project.Typing

/-!
# Rules for assignments

An assignment between datatypes that differ is converted where that is possible, and gives a
warning or an error where it loses something or cannot be done.
-/

namespace ArmaGen.Rule

open Edit

def sides (id : NodeId) : Edit (NodeId × NodeId) := do
  match ← children id with
  | [target, assigned] => return (target, assigned)
  | _ => throw .unreadable

def warnReduction (id : NodeId) (target assigned : Datatype) : Edit Unit :=
  warning id ("Type reduction from " ++ assigned.name ++ " to " ++ target.name)

/-- Assigns a number to all elements of an array. A number in brackets counts as a number. -/
def scalarAssign (id : NodeId) : Edit (Option Emission) := do
  let (target, assigned) ← sides id
  if (← elementRankOf target) < (← elementRankOf assigned) then
    warnReduction id (← typeOf target) (← typeOf assigned)
  let value ← if (← kind assigned) == .matrix then str (← child (← child assigned 0) 0)
    else pure "%(1)s"
  return some (.text (if (← kind target) == .set then "%(0)s.fill(" ++ value ++ ") ;"
    else "%(0)s = " ++ value ++ " ;"))

def transposes (a b : Shape) : Bool :=
  (a == .row && b == .column) || (a == .column && b == .row)

def numericAssign (id target assigned : NodeId) : Edit (Option Emission) := do
  let targetType ← typeOf target
  let assignedType ← typeOf assigned
  let both := targetType.name ++ " and " ++ assignedType.name
  match ← shapeOf target, ← shapeOf assigned with
  | some .scalar, some .scalar =>
    if (← elementRankOf assigned) ≤ (← elementRankOf target) then
      return some (.text ("%(0)s = (" ++ targetType.name ++ ") %(1)s ;"))
    else
      warnReduction id targetType assignedType
      return some (.text "%(0)s = %(1)s ;")
  | some .scalar, some _ =>
    error id ("Types incompatible " ++ both)
    return some (.text "%(0)s = %(1)s ;")
  | some _, some .scalar => scalarAssign id
  | some a, some b =>
    let fits := (a == .column || a == .row) && (b == .matrix || b == .cube)
    if !fits then
      if (← elementRankOf assigned) ≤ (← elementRankOf target) then
        warning id ("Possible size incompatibility " ++ both)
      else warning id ("Type reduction and possible size incompatible " ++ both)
    return some (.text (if transposes a b then "%(0)s = arma::strans(%(1)s) ;"
      else "%(0)s = %(1)s ;"))
  | _, _ => throw .wrongSort

def assign : Rule := fun id => do
  let (target, assigned) ← sides id
  let targetType ← typeOf target
  let assignedType ← typeOf assigned
  if targetType == .unknown || assignedType == .unknown || targetType == assignedType then
    Emit.text "%(0)s = %(1)s ;"
  else
    let numeric ← if ← isNumeric target then isNumeric assigned else pure false
    if numeric then numericAssign id target assigned
    else
      error id ("Types incompatible " ++ targetType.name ++ " and " ++ assignedType.name)
      Emit.text "%(0)s = %(1)s ;"

end ArmaGen.Rule
