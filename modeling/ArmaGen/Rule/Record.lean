import ArmaGen.Rule.Matrix
import ArmaGen.Rule.Variable

/-!
# Rules for records, lists of records and lists of values
-/

namespace ArmaGen.Rule

open Edit

/-! ### Lists of records -/

def recordMatrix : Rule := fun id => do
  if (← backend id) == .structs then
    let first ← child id 0
    if (← kind first) == .vector && (← count first) == 1 then Emit.text "%(0)s"
    else Emit.around "[" ", " "]"
  else Emit.around "[" ", " "]"

def collectField (id target matrix field : NodeId) : Emit (Option Emission) := do
  let size ← str matrix
  let array ← name target
  let list ← name field
  let field ← value field
  let declares ← child (← func id) 0
  if !(← hasChild declares "_i") then
    let index ← make declares { kind := .var, name := "_i" }
    setType index .int
    setBackend index (.typed .int)
    Emit.tree declares
  Emit.text (array ++ ".resize(" ++ size ++ ") ;\nfor (_i=0; _i<" ++ size ++ "; ++_i)\n  " ++
    array ++ "[_i] = " ++ list ++ "[_i]." ++ field ++ " ;")

def assignRecords : Rule := fun id => do
  let (target, assigned) ← sides id
  let plain := Emit.text "%(0)s = %(1)s"
  if (← kind assigned) == .matrix && (← backend assigned) == .structs then
    let field ← child (← child assigned 0) 0
    if (← backend field) == .structs then collectField id target assigned field
    else plain
  else plain

def recordsRule? : Kind → Option Rule
  | .counter => some fun _ => Emit.text "%(name)s = %(value)s"
  | .fget => some fun _ => Emit.call "%(name)s.%(value)s"
  | .fset => some fun _ => Emit.around "%(name)s.%(value)s[" ", " "-1]"
  | .matrix => some recordMatrix
  | .assign => some assignRecords
  | kind => nameRule? kind

/-! ### Lists of values -/

def cell : Rule := fun id => do
  let above ← kind (← parent id)
  if above != .assign && above != .assigns then
    let _ ← Emit.auxiliary id (pure "cell") false
  Emit.around "\x7b" "," "\x7d"

/-- The rule for assignments of lists of values: they are filled one by one. -/
def assignCell : Rule := fun id => do
  let texts ← childTexts (← child id 1)
  Emit.text ("%(0)s.clear() ;" ++
    String.join (texts.map fun text => "\n%(0)s.push_back(" ++ text ++ ") ;"))

def cellRule? : Kind → Option Rule
  | .cell => some cell
  | .assign => some assignCell
  | kind => nameRule? kind

end ArmaGen.Rule
