import ArmaGen.Project.Declare
import ArmaGen.Project.Traverse

/-!
# Building syntax into a project

`Edit.install` puts a forest of syntax below a node and declares what the syntax asks to declare. A
function that is complete declares its results and gets a header. An anonymous function goes to the
functions of the program, and captures the variables that its body uses.
-/

namespace ArmaGen.Edit

/-! ### Functions -/

def declareAll : List NodeId → Edit Unit
  | [] => return ()
  | id :: rest => do
    declare id
    declareAll rest

def completeFunction (id : NodeId) : Edit Unit := do
  declareAll (← children (← child id 1))
  let _ ← make (← headersOf id) { kind := .header, name := ← name id }

/-- A name that is not taken: the name itself, or the name with the least number after it. -/
def freshName (taken : List String) (name : String) : String :=
  if taken.contains name then
    let numbered := (List.range (taken.length + 1)).map fun i => name ++ toString i
    (numbered.find? fun candidate => !taken.contains candidate).getD name
  else name

def makeAnonymous (parent : NodeId) (head : Head) : Edit NodeId := do
  let funcs ← funcsOf parent
  make funcs { Node.ofHead head with name := freshName (← names funcs) head.name }

/-- The kinds of nodes by which an anonymous function captures variables. -/
def captures : Kind → Bool
  | .get | .cget | .var | .fvar | .fget | .sget => true
  | _ => false

def captureFrom (outer : NodeId) : List NodeId → Edit Unit
  | [] => return ()
  | id :: rest => do
    if captures (← kind id) then
      let scope := (← names (← declaresOf outer)) ++ (← names (← paramsOf outer))
      if scope.contains (← name id) then declare id
    captureFrom outer rest

def completeAnonymous (parent id : NodeId) : Edit Unit := do
  let assign ← child (← child id 3) 0
  captureFrom parent (← nodesBelow (← child assign 1))
  declareAll (← children (← child id 1))
  let reference ← make parent { kind := .lambda, name := ← name id }
  update reference fun node => { node with reference? := some id }

/-! ### Syntax -/

mutual

def installItem (parent : NodeId) : Syntax → Edit Unit
  | .declare => declare parent
  | .node head items => do
    if head.kind == .lambda then
      let id ← makeAnonymous parent { head with kind := .func }
      install id items
      completeAnonymous parent id
    else if head.kind != .func then
      let id ← make parent (.ofHead head)
      install id items
    else if (← kind parent) == .funcs then
      let id ← make parent (.ofHead head)
      install id items
      if head.code?.isSome then completeFunction id
    else
      let id ← makeAnonymous parent head
      install id items

def install (parent : NodeId) : List Syntax → Edit Unit
  | [] => return ()
  | item :: rest => do
    installItem parent item
    install parent rest

end

end ArmaGen.Edit
