import ArmaGen.Infer.Configure

/-!
# Removing what emitted programs do not need

Commands that clear the workspace have no meaning in an emitted program, and neither have choices
by the number of arguments, if that is wanted.
-/

namespace ArmaGen.Edit

def detach (id : NodeId) : Edit Unit := do
  let above ← parent id
  let below ← children above
  match below.idxOf? id with
  | some index => setChildren above (below.eraseIdx index)
  | none => throw .unreadable

def removeCommands : List NodeId → Edit Unit
  | [] => return ()
  | id :: rest => do
    if ["clear", "close", "clc"].contains (← name id) then detach (← parent id)
    removeCommands rest

def armadilloNames : String :=
  "using namespace arma ;"

/-- The position of the first of some lines that makes the names of the matrix library known and is
not the last line. -/
def armadilloPosition? (names : List String) : Option Nat :=
  names.dropLast.idxOf? armadilloNames

/-- Removes the line that makes the names of the matrix library known, unless it is the last one. -/
def removeArmadilloNames (includes : NodeId) : Edit Unit := do
  let lines ← names includes
  match armadilloPosition? lines with
  | none => return ()
  | some index =>
    setChildren includes ((← children includes).eraseIdx index)
    if (lines.drop (index + 2)).contains armadilloNames then throw .noAttribute

def argumentCount? : List NodeId → Edit (Option NodeId)
  | [] => return none
  | id :: rest => do
    if (← name id) == "nargin" then return some id else argumentCount? rest

/-- Removes choices by the number of arguments from a block, at most `n` of them, up to the first
use that is not a choice. -/
def removeArgumentChoices : Nat → NodeId → Edit Unit
  | 0, _ => return ()
  | n + 1, block => do
    match ← argumentCount? (← nodesBelow block) with
    | none => return ()
    | some id =>
      let group ← group id
      match ← kind group with
      | .branch | .switch =>
        detach group
        removeArgumentChoices n block
      | _ => return ()

def removeArgumentChoicesIn : List NodeId → Edit Unit
  | [] => return ()
  | func :: rest => do
    removeArgumentChoices (← height) (← child func 3)
    removeArgumentChoicesIn rest

/-- Removes from all programs what emitted programs do not need; with `arguments` also choices by
the number of arguments. -/
def prune (arguments : Bool) : Edit Unit := do
  ensureConfigured
  removeCommands (← nodesBelow root)
  let programs ← children root
  programs.forM fun program => do removeArmadilloNames (← child program 0)
  if arguments then
    programs.forM fun program => do
      removeArgumentChoicesIn (← children (← child program 1))

end ArmaGen.Edit
