import ArmaGen.Project.Typing
import ArmaGen.Text.Path

/-!
# Calls of functions

A name is a call if a function has it: an anonymous function, a function of the same program, or the
first function of a program in a file of that name. Datatypes spread between the arguments and
parameters, and between value and results.
-/

namespace ArmaGen.Edit

def programNamed (own : NodeId) (file : String) : List NodeId → Edit (Option NodeId)
  | [] => return none
  | id :: rest => do
    if id != own && Path.fileName (← name id) == file then return some id
    else programNamed own file rest

def calledFunction (id : NodeId) : Edit (Option NodeId) := do
  let name ← name id
  let funcs ← funcsOf id
  if ← hasChild funcs ("_" ++ name) then return some (← childNamed funcs ("_" ++ name))
  else if ← hasChild funcs name then return some (← childNamed funcs name)
  else
    match ← programNamed (← program id) (name ++ ".m") (← children root) with
    | some program => return some (← child (← child program 1) 0)
    | none => return none

/-- Suggests for two nodes each other's datatypes, the first one's for the second one first. -/
def suggestBoth (first second : Edit NodeId) : Edit Unit := do
  let type ← typeOf (← first)
  suggestType (← second) type
  let type ← typeOf (← second)
  suggestType (← first) type

def suggestArguments (call params : NodeId) : Nat → Edit Unit
  | 0 => return ()
  | n + 1 => do
    suggestArguments call params n
    suggestBoth (child call n) (child params n)

def suggestResults (assigns returns : NodeId) : Nat → Edit Unit
  | 0 => return ()
  | n + 1 => do
    suggestResults assigns returns n
    suggestBoth (child assigns n) (child returns n)

def suggestParameters (call params : NodeId) : Nat → Edit Unit
  | 0 => return ()
  | n + 1 => do
    suggestParameters call params n
    let type ← typeOf (← child call n)
    suggestType (← child params n) type

def inferCall (id func : NodeId) : Edit Unit := do
  let type ← typeOf (← child (← child func 1) 0)
  setType (← declaration id) type
  suggestArguments id (← child func 2) (← count id)

def inferMultiCall (id func : NodeId) : Edit Unit := do
  let params ← child func 2
  suggestArguments id params (← count params)
  let parent ← parent id
  if (← kind parent) == .assigns then
    let returns ← child func 1
    suggestResults parent returns (← count returns)

def inferLambdaCall (id func : NodeId) : Edit Unit := do
  let result ← child (← child func 1) 0
  suggestType id (← typeOf result)
  suggestType result (← typeOf id)
  if ← isTyped id then setType (← declaration id) .lambda
  suggestParameters id (← child func 2) (← count id)

/-- Treats a node as a call if a function has its name; tells whether one has. -/
def inferAsCall (id : NodeId) : Edit Bool := do
  match ← calledFunction id with
  | none => return false
  | some func =>
    let rules ← backend func
    setBackend id rules
    if rules == .funcReturn then inferCall id func
    else if rules == .funcReturns then inferMultiCall id func
    else if rules == RuleSet.lambda then inferLambdaCall id func
    return true

end ArmaGen.Edit
