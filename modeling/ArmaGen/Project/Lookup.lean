import ArmaGen.Project.Store
import ArmaGen.Text.Source

/-!
# Looking up from a node

From a node one looks upwards: to the function, the program and the group around it, to its
position, text and line, and to the declaration of the variable it names. What is found is mostly
remembered at the node.
-/

namespace ArmaGen.Edit

def height : Edit Nat :=
  return (← get).nodes.size + 1

/-! ### Nodes around -/

def enclosing (wanted : Kind → Bool) : Nat → NodeId → Edit NodeId
  | 0, _ => throw .endless
  | n + 1, id => do
    if wanted (← kind id) then return id else enclosing wanted n (← parent id)

def func (id : NodeId) : Edit NodeId := do
  enclosing (fun kind => kind == .func || kind == .main || kind == .program) (← height) id

def program (id : NodeId) : Edit NodeId := do
  enclosing (fun kind => kind == .program || kind == .project) (← height) id

def groupSteps : Nat → NodeId → Edit NodeId
  | 0, _ => throw .endless
  | n + 1, id => do
    match (← node id).foundGroup? with
    | some group => return group
    | none =>
      let above ← parent id
      let group ← if (← kind above).isGroup then pure above else groupSteps n above
      update id fun node => { node with foundGroup? := some group }
      return group

def group (id : NodeId) : Edit NodeId := do
  groupSteps (← height) id

/-! ### Position, text and line -/

/-- A property that holds for all nodes below unless they have their own, in at most `n`
steps. -/
def inherited {α : Type} (read : Node → Option α) (write : α → Node → Node) :
    Nat → NodeId → Edit α
  | 0, _ => throw .endless
  | n + 1, id => do
    match read (← node id) with
    | some a => return a
    | none =>
      let above ← parent id
      if above == id then throw .violated
      else
        let a ← inherited read write n above
        update id (write a)
        return a

def cur (id : NodeId) : Edit Int := do
  inherited (·.cur?) (fun cur node => { node with cur? := some cur }) (← height) id

def code (id : NodeId) : Edit String := do
  inherited (·.code?) (fun code node => { node with code? := some code }) (← height) id

/-- The line of a node, in at most `n` steps: that of the node above, and one more for each line end
between the two. -/
def lineSteps : Nat → NodeId → Edit Int
  | 0, _ => throw .endless
  | n + 1, id => do
    let found ← node id
    match found.foundLine? with
    | some line => return line
    | none =>
      let line ← match found.kind with
        | .project => pure 0
        | .funcs => pure 1
        | _ => do
          let line ← lineSteps n found.parent
          let above ← cur found.parent
          let cur ← cur id
          if above == cur then pure line
          else
            let code ← code (← program id)
            pure (line + (Source.ofString code).lineEnds above cur)
      update id fun node => { node with foundLine? := some line }
      return line

def line (id : NodeId) : Edit Int := do
  lineSteps (← height) id

/-! ### Parts of the program around -/

def includesOf (id : NodeId) : Edit NodeId := do
  child (← program id) 0

def funcsOf (id : NodeId) : Edit NodeId := do
  child (← program id) 1

def structsOf (id : NodeId) : Edit NodeId := do
  child (← program id) 3

def headersOf (id : NodeId) : Edit NodeId := do
  child (← program id) 4

def logOf (id : NodeId) : Edit NodeId := do
  child (← program id) 5

def declaresOf (id : NodeId) : Edit NodeId := do
  child (← func id) 0

def paramsOf (id : NodeId) : Edit NodeId := do
  child (← func id) 2

def functionParts (func : NodeId) : Edit (NodeId × NodeId × NodeId × NodeId) := do
  match ← children func with
  | [declares, returns, params, block] => return (declares, returns, params, block)
  | _ => throw .unreadable

/-! ### Declarations -/

def fieldName? (id : NodeId) : Edit (Option String) := do
  let node ← node id
  if node.kind == .nget || node.kind == .nset then
    let index ← child id 0
    if (← kind index) == .string then
      let _ ← childNamed index "value"
    return none
  else return some node.value

def found (id declaration : NodeId) : Edit NodeId := do
  update id fun node => { node with declare? := some declaration }
  return declaration

def fieldDeclaration (id : NodeId) : Edit NodeId := do
  match ← fieldName? id with
  | none => return id
  | some field =>
    let name ← name id
    let structs ← structsOf id
    if !(← hasChild structs name) then return id
    else
      let struct ← childNamed structs name
      if !(← hasChild struct field) then return id
      else found id (← childNamed struct field)

/-- The declaration of a variable: among the declared variables of its function, else among the
parameters, else the node itself. -/
def variableDeclaration (id : NodeId) : Edit NodeId := do
  let name ← name id
  let declares ← declaresOf id
  if ← hasChild declares name then found id (← childNamed declares name)
  else
    let params ← paramsOf id
    if ← hasChild params name then found id (← childNamed params name)
    else return id

def declaration (id : NodeId) : Edit NodeId := do
  let node ← node id
  match node.declare? with
  | some declaration => return declaration
  | none =>
    if node.kind.isUndeclared then return id
    else if node.kind.isField || node.backend.isRecord then fieldDeclaration id
    else if (← kind node.parent) == .struct then return id
    else variableDeclaration id

end ArmaGen.Edit
