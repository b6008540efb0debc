import ArmaGen.Emit.Nodes
import ArmaGen.Project.Load
import ArmaGen.Supplement.Text
import ArmaGen.Supplement.Verbatim

/-!
# The texts that are made of a program

A program gives a source file or a header file, a log of errors and warnings, a supplement that
can be edited, and a view of its tree. A script is a source file; functions alone are a header
file.
-/

namespace ArmaGen.Edit

/-! ### Programs from text -/

/-- Loads a program, with its lines that have their own output marked, and infers datatypes. -/
def prepare (verbatims : Table String) (suggest : Bool) (code : String) : Edit Unit := do
  let text ← (Verbatim.markLines verbatims (code ++ "\n\n\n\n") : Except Failure String)
  load "unamed" text
  configure suggest

def firstProgram : Edit NodeId :=
  child root 0

def isScript (funcs : NodeId) : Edit Bool := do
  match ← children funcs with
  | first :: _ => return (← name first) == "main"
  | [] => return false

/-! ### Source and header files -/

structure Parts where
  includes : NodeId
  funcs : NodeId
  structs : NodeId
  headers : NodeId

def emittedParts (id : NodeId) : Edit Parts := do
  let program ← program id
  if (← str program).isEmpty then emit program
  match ← children program with
  | [includes, funcs, _, structs, headers, _] => return { includes, funcs, structs, headers }
  | _ => throw .unreadable

/-- The text of a file: its parts with blank lines between them. -/
def fileText (parts : Parts) : Edit String := do
  let includes ← str parts.includes
  let headers ← if 1 < (← count parts.headers) then do pure [← str parts.headers] else pure []
  let structs ← str parts.structs
  let funcs ← str parts.funcs
  let full := fun (text : String) => if text.isEmpty then [] else [text]
  let texts := full includes ++ headers ++ full structs ++ full funcs
  (finish (joinWith "\n\n" texts) : Except Failure String)

/-- The source file of the program around a node; it is empty unless the program is a script. -/
def sourceText (id : NodeId) : Edit String := do
  let parts ← emittedParts id
  if ← isScript parts.funcs then fileText parts else return ""

/-- The header file of the program around a node; it is empty if the program is a script. -/
def headerText (id : NodeId) : Edit String := do
  let parts ← emittedParts id
  if ← isScript parts.funcs then return "" else fileText parts

/-! ### Parts of programs -/

/-- What was written by the author of a program: the block of a script, or the functions. -/
def core (id : NodeId) : Edit NodeId := do
  if (← kind id) == .program then
    let funcs ← child id 1
    if ← isScript funcs then child (← child funcs 0) (-1) else return funcs
  else return id

/-- What is emitted for a node; of a program for the part that was written by its author. -/
def scriptText (id : NodeId) : Edit String := do
  emit id
  let text ← str (← core id)
  (finish text : Except Failure String)

/-! ### Logs, supplements and trees -/

def requireProgram (id : NodeId) : Edit Unit := do
  if (← kind id) != .program then throw .notProgram

def logText (program : NodeId) : Edit String := do
  requireProgram program
  emit program
  return showPercent (← str (← child program 5))

def supplement (id : NodeId) : Edit Supplement := do
  let named := fun (table : Table (Table String)) =>
    table.mapValues fun (entries : Table String) => entries.mapValues TypeEntry.named
  let functions ← functionTypes id
  let structs ← structTypes id
  let includes ← includeLines id
  let verbatims ← verbatimsBelow id
  return { functions := named functions, structs := named structs, includes, verbatims }

def supplementText (explained : Bool) (program : NodeId) : Edit String := do
  requireProgram program
  let supplement ← supplement program
  let suggestions ← suggestions program
  return showPercent (← (supplement.text suggestions explained : Except Failure String))

end ArmaGen.Edit
