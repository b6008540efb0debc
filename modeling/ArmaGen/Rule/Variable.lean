import ArmaGen.Emit.Log
import ArmaGen.Infer.Indexing

/-!
# Rules for variables, elements and fields

How variables, elements and fields are emitted whatever their datatype is; arrays and lists of
records have some rules of their own.
-/

namespace ArmaGen.Rule

open Edit

def requireType (id : NodeId) : Edit Unit := do
  if !(← isTyped id) then error id "unknown data type"

def var : Rule := fun id => do
  requireType id
  Emit.text "%(name)s"

def isOnlyElement (id : NodeId) : Edit Bool := do
  let row ← parent id
  if (← kind row) == .vector then
    if (← count row) == 1 then return (← count (← parent row)) == 1 else return false
  else return false

/-- The rule for fields. Of a list of records the first one is meant, or its length. -/
def fvar : Rule := fun id => do
  if (← backend id) == .structs then
    if ← isOnlyElement id then
      let size ← childNamed (← parent (← declaration id)) "_size"
      Emit.text (← value size)
    else Emit.text "%(name)s[0].%(value)s"
  else Emit.text "%(name)s.%(value)s"

def requireCell (id : NodeId) : Edit Unit := do
  match ← typeOf id with
  | .unknown => setType (← declaration id) .cell
  | .other .cell => return ()
  | type => error id ("Behaves like cell, not " ++ type.name)

def cvar : Rule := fun id => do
  requireCell id
  Emit.around "%(name)s\x7b" "\x7d\x7b" "\x7d"

def set : Rule := fun id => do
  requireType id
  if ← isTyped id then
    if ← isNumeric id then
      if ← hasElement id .uword then error id "scalar are not iterable"
  Emit.call "%(name)s"

/-- The rule for elements of members of lists of values, which are not supported. -/
def cellElement : Rule := fun id => do
  requireCell id
  let _ ← childNamed id "n_fields"
  throw Failure.wrongSort

/-- The position of the record that an integer literal selects, if the only argument is one. -/
def literalPosition? (id : NodeId) : Edit (Option Int) := do
  match ← children id with
  | [index] =>
    let node ← node index
    if node.kind == .int then
      match readInteger? node.value with
      | some n => return some (n - 1)
      | none => throw .unreadable
    else return none
  | _ => return none

def clearPointer (id : NodeId) : Edit Unit :=
  update id fun node => { node with pointer := 0 }

def sset : Rule := fun id => do
  clearPointer id
  match ← literalPosition? id with
  | some n => Emit.text ("%(name)s[" ++ toString n ++ "].%(value)s")
  | none => Emit.around "%(name)s[" ", " "-1].%(value)s"

def sget : Rule := fun _ =>
  Emit.around "%(name)s[" ", " "-1].%(value)s"

def fget : Rule := fun id => do
  clearPointer id
  match ← literalPosition? id with
  | some n => Emit.text ("%(name)s[" ++ toString n ++ "].%(value)s")
  | none => Emit.call "%(name)s.%(value)s"

def computedField : Rule := fun _ =>
  Emit.call "%(name)s."

def get : Rule := fun _ =>
  Emit.call "%(name)s"

def nameRule? : Kind → Option Rule
  | .var => some var
  | .fvar => some fvar
  | .cvar => some cvar
  | .set => some set
  | .cset | .cget => some cellElement
  | .sset => some sset
  | .nset | .nget => some computedField
  | .get => some get
  | .fget => some fget
  | .sget => some sget
  | _ => none

end ArmaGen.Rule
