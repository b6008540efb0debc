import ArmaGen.Emit.Include
import ArmaGen.Project.Declare

/-!
# Lines that rules add

Some values cannot stand in the middle of an expression: they are assigned to a variable of their
own on a line before. Cubes that are indexed like matrices get a view, timers and plotters are
declared when they are first used.
-/

namespace ArmaGen

namespace Edit

def lineNodeSteps : Nat → NodeId → Edit NodeId
  | 0, _ => throw .endless
  | n + 1, id => do
    let above ← parent id
    if (← kind above) == .block then return id else lineNodeSteps n above

def lineNode (id : NodeId) : Edit NodeId := do
  lineNodeSteps (← height) id

def moveLastBefore (parent id : NodeId) : Edit Unit := do
  let below ← children parent
  match below.idxOf? id, below.getLast? with
  | some i, some last =>
    setChildren parent (below.take i ++ [last] ++ (below.drop i).dropLast)
  | _, _ => throw .unreadable

def replaceChild (parent old new : NodeId) : Edit Unit := do
  let below ← children parent
  match below.idxOf? old with
  | some i => setChildren parent (below.set i new)
  | none => throw .unreadable

/-- The first name of auxiliary variables of a datatype that is not declared, from a number on. -/
def auxiliaryName (taken : List String) (type : String) : String :=
  let candidates := (List.range (taken.length + 1)).map fun i =>
    "_aux_" ++ type ++ "_" ++ toString (i + 1)
  (candidates.find? fun name => !taken.contains name).getD ""

/-- The datatype of an auxiliary variable: indices in a matrix are unsigned. -/
def auxiliaryType (id : NodeId) (type : String) : Edit String := do
  if (← kind id) == .matrix && type == "int" then
    match ← kind (← group id) with
    | .get | .set => return "uword"
    | _ => return type
  else return type

end Edit

namespace Emit

open Edit

/-- Assigns a value to a variable of its own on a line before, and puts the variable in its place.
With `convert` the value is converted to the datatype. What is assigned already needs no variable.
-/
def auxiliary (id : NodeId) (type : Edit String) (convert : Bool) : Emit NodeId := do
  if (← kind (← parent id)) == .assign then throw Failure.violated
  let matrix := (← kind id) == .matrix
  let type ← auxiliaryType id (← type)
  let line ← lineNode id
  let block ← parent line
  let name := auxiliaryName (← names (← declaresOf id)) type
  let assign ← make block { kind := .assign }
  setTypeNamed assign type
  if matrix then setBackend assign .matrix
  let target ← make assign { kind := .var, name }
  setTypeNamed target type
  setBackend target (.ofName type)
  declare target
  let holder ← if convert then do
      let call ← make assign { kind := .get, name := "_conv_to" }
      setTypeNamed call type
      pure call
    else pure assign
  let standIn ← make holder { kind := .var, name }
  setTypeNamed (← declaration standIn) type
  moveLastBefore block line
  let above ← parent id
  replaceChild above id standIn
  setChildren holder ((← children holder).dropLast ++ [id])
  update standIn fun node => { node with parent := above }
  update id fun node => { node with parent := holder }
  Emit.tree id
  Emit.one standIn
  Emit.one target
  if convert then Emit.one holder
  Emit.one assign
  if convert && (← typeOf id) == (← typeOf standIn) then throw Failure.violated
  return standIn

def auxiliaryOwn (id : NodeId) : Emit NodeId :=
  auxiliary id (do return (← typeOf id).name) false

/-- Declares a view of a cube as a matrix on a line before, the first time a node asks for it. -/
def resize (id : NodeId) : Emit Unit := do
  if ((← node id).extra? .resize).isNone then
    update id (·.setExtra .resize .mark)
    let type ← typeOf id
    setShape id .matrix
    let line ← lineNode id
    let block ← parent line
    let view ← make block { kind := .resize, name := ← name id }
    setType view type
    moveLastBefore block line
    Emit.one view

def wallClock (id : NodeId) : Emit Unit := do
  let declares ← declaresOf id
  if !(← hasChild declares "_timer") then
    let timer ← make declares { kind := .var, name := "_timer" }
    setType timer (.other .wallClock)

def isReturn (id : NodeId) : Emit Bool := do
  match ← children id with
  | first :: _ => return (← kind first) == .returnCall
  | [] => return false

/-- Declares a plotter in the function around a node, and shows it at the end of the function. -/
def plotting (id : NodeId) : Emit Unit := do
  let declares ← declaresOf id
  if !(← hasChild declares "_plot") then
    Edit.includeFile id "SPlot"
    let plotter ← make declares { kind := .var, name := "_plot" }
    setType plotter (.other .splot)
    let block ← child (← func id) 3
    let statement ← make block
      { kind := .statement, code? := some "", backend := .codeBlock }
    let _ ← make statement { kind := .get, name := "_splot", backend := .reserved }
    Emit.tree statement
    let below ← children block
    match below.reverse with
    | last :: before :: rest =>
      if ← isReturn before then setChildren block (before :: last :: rest).reverse
    | _ => return ()

end Emit

end ArmaGen
