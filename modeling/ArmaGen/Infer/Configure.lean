import ArmaGen.Infer.Datatype
import ArmaGen.Infer.Reserved
import ArmaGen.Supplement.Views

/-!
# Inferring datatypes

Configuring a project goes over all nodes from the bottom up, and gives each its datatype and the
rules that emit it as far as they are known. What is suggested for variables is then taken for their
datatype, and the nodes are gone over again until nothing is suggested any more.
-/

namespace ArmaGen.Edit

def inferNode (configure : NodeId → Edit Unit) (id : NodeId) : Edit Unit := do
  let node ← node id
  match reservedRule? node.kind node.name with
  | some rule => rule id
  | none => pure ()
  let node ← Edit.node id
  if node.type == .unknown then
    match datatypeRule? configure node.kind with
    | some rule => rule id
    | none => pure ()
  if (← backend id) == .unknown then chooseRules id

def inferNodes (configure : NodeId → Edit Unit) : List NodeId → Edit Unit
  | [] => return ()
  | id :: rest => do
    inferNode configure id
    inferNodes configure rest

/-- Takes what is suggested in some programs for datatypes; tells whether nothing was suggested. -/
def adoptSuggestions : List NodeId → Edit Bool
  | [] => return true
  | program :: rest => do
    let suggested ← suggestions program
    setStructTypes program suggested
    setFunctionTypes program suggested
    let settled := suggested.all fun (_, entries) => entries.all fun (name, _) => name.isEmpty
    return (← adoptSuggestions rest) && settled

def inferPasses (configure : NodeId → Edit Unit) (suggest : Bool) (ids : List NodeId) :
    Nat → Edit Unit
  | 0 => throw .endless
  | n + 1 => do
    inferNodes configure ids
    if suggest then
      if !(← adoptSuggestions (← children root)) then inferPasses configure suggest ids n

def clearLogs : List NodeId → Edit Unit
  | [] => return ()
  | program :: rest => do
    setChildren (← child program (-1)) []
    clearLogs rest

def inferBelow (configure : NodeId → Edit Unit) (suggest : Bool) (id : NodeId) : Edit Unit := do
  let project ← get
  inferPasses configure suggest (project.postorder true id) (project.nodes.size + 100)
  clearLogs (← children root)

/-- Infers the datatypes below a node, with anonymous functions nested less than `n` deep. -/
def configureSteps : Nat → Bool → NodeId → Edit Unit
  | 0, _, _ => throw .endless
  | n + 1, suggest, id => do
    inferBelow (fun lambda => configureSteps n true lambda) suggest id
    inferBelow (fun lambda => configureSteps n true lambda) suggest id

/-- Infers all datatypes of a project, with suggestions or without. A project is configured
once. -/
def configure (suggest : Bool) : Edit Unit := do
  if (← get).configured then throw .configuredTwice
  else
    modify fun project => { project with configured := true }
    configureSteps (← height) suggest root

def ensureConfigured : Edit Unit := do
  if !(← get).configured then configure true

end ArmaGen.Edit
