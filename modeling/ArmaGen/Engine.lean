import ArmaGen.Project.Load
import ArmaGen.Project.Summary

/-!
# Running scripts in an engine

A script could be run in an engine for its language, to find out about the functions it calls. No
engine can be reached from here: running stops at the first line.
-/

namespace ArmaGen

structure Evaluation where
  functions : List String
  called : List String := []
  outcome : Except Failure Unit

namespace Edit

def functionNames : List NodeId → Edit (List String)
  | [] => return []
  | id :: rest => do
    let node ← node id
    let names ← functionNames rest
    return if node.kind == .func then node.name :: names else names

def isCall (functions : List String) (id : NodeId) : Edit Bool := do
  let node ← node id
  if (node.kind == .get || node.kind == .var) && node.backend == .unknown then
    if ← isTyped id then return false else return functions.contains node.name
  else return false

/-- The functions that some nodes call, each of them once, after those called before. -/
def calledBy (functions : List String) (called : List String) :
    List NodeId → Edit (List String × Except Failure Unit)
  | [] => return (called, .ok ())
  | id :: rest => do
    let found : Except Failure Bool ← try .ok <$> isCall functions id
      catch failure => pure (.error failure)
    match found with
    | .error failure => return (called, .error failure)
    | .ok found =>
      let name ← name id
      let called := if found && !called.contains name then called ++ [name] else called
      calledBy functions called rest

def isPlainLine : Kind → Bool
  | .assign | .assigns | .statement => true
  | _ => false

def runBlock (functions : List String) (block : NodeId) : Edit Evaluation := do
  match ← children block with
  | [] => return { functions, outcome := .error .noEngine }
  | line :: _ =>
    if isPlainLine (← kind line) then
      let (called, outcome) ← calledBy functions [] (← nodesBelow line)
      return { functions, called, outcome := outcome.bind fun _ => .error .noEngine }
    else return { functions, outcome := .error .noEngine }

/-- The first function of the first program, and its block if it is a script. -/
def scriptBlock? : Edit (Option NodeId) := do
  let first ← child (← child (← child root 0) 1) 0
  if (← name first) == "main" then return some (← child first 3) else return none

def evaluate : Edit Evaluation := do
  display "Error: name 'mlabraw' is not defined"
  let functions ← (← children root).flatMapM fun program => do
    display (← summary program)
    functionNames (← nodesBelow program)
  let block : Except Failure (Option NodeId) ← try .ok <$> scriptBlock?
    catch failure => pure (.error failure)
  match block with
  | .error failure => return { functions, outcome := .error failure }
  | .ok (some block) => runBlock functions block
  | .ok none =>
    display "matlab have to run script file"
    return { functions, outcome := .ok () }

end Edit

end ArmaGen
