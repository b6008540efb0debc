import ArmaGen.CommandLine.Arguments
import ArmaGen.Output
import ArmaGen.Supplement.Literal

/-!
# Loading the files of a project

Starting with one file, all files are loaded whose names occur in the programs loaded so far and are
not known there. What a supplement told stays told for later files.
-/

namespace ArmaGen

/-! ### Supplements -/

structure Told where
  functions? : Option Literal := none
  structs? : Option Literal := none
  includes? : Option Literal := none
  verbatims? : Option Literal := none
deriving Repr, Inhabited

namespace Told

def add (told : Told) (name : String) (value : Literal) : Told :=
  match name with
  | "functions" => { told with functions? := some value }
  | "structs" => { told with structs? := some value }
  | "includes" => { told with includes? := some value }
  | "verbatims" => { told with verbatims? := some value }
  | _ => told

def addAll (told : Told) (assignments : Table Literal) : Told :=
  assignments.foldl (fun told (name, value) => told.add name value) told

end Told

def TypeEntry.ofLiteral : Literal → Option TypeEntry
  | .string name => some (.named name)
  | .number n => some (.number n)
  | .nothing => some (.named "")
  | .truth b => some (.number (if b then 1 else 0))
  | .list items =>
    match items.mapM Literal.text?, items.mapM Literal.number? with
    | some texts, _ => some (.names texts)
    | none, some ns => some (.numbers ns)
    | none, none => none
  | .table _ => none

def mergeEntries (known : Table String) (told : Table Literal) : Option (Table TypeEntry) := do
  let entries ← told.mapM fun (key, value) => return (key, ← TypeEntry.ofLiteral value)
  return (known.mapValues TypeEntry.named).update entries

/-- Puts what a table of literals tells about known functions or records into a table. -/
def mergeTypes (known : Table (Table String)) (told : Table Literal) : Option TypeTable :=
  known.mapM fun (name, entries) => do
    match told.get? name with
    | some value => return (name, ← mergeEntries entries (← value.table?))
    | none => return (name, entries.mapValues TypeEntry.named)

namespace Edit

def demand {α : Type} : Option α → Edit α
  | some value => return value
  | none => throw .wrongSort

def tellFunctions (program : NodeId) (told : Literal) : Edit Unit := do
  let known ← functionTypes program
  setFunctionTypes program (← demand do mergeTypes known (← told.table?))

def tellStructs (program : NodeId) (told : Literal) : Edit Unit := do
  let known ← structTypes program
  setStructTypes program (← demand do mergeTypes known (← told.table?))

def tellIncludes (program : NodeId) (told : Literal) : Edit Unit := do
  setIncludeLines program (← demand told.texts?)

def tell (program : NodeId) (told : Told) : Edit Unit := do
  if let some functions := told.functions? then tellFunctions program functions
  if let some structs := told.structs? then tellStructs program structs
  if let some includes := told.includes? then tellIncludes program includes

def toldVerbatims (told : Told) : Edit (Table String) :=
  match told.verbatims? with
  | none => return []
  | some literal => demand do
    (← literal.table?).mapM fun (key, value) => return (key, ← value.text?)

/-- What supplements tell once the supplement of a file is read, if it has one. -/
def readSupplement (told : Told) (path : String) : Edit (Option Told) := do
  match (← get).directory.file? (path ++ ".py") with
  | none => return none
  | some text =>
    match Literal.readAssignments? text with
    | some assignments => return some (told.addAll assignments)
    | none => throw (.supplement path)

/-! ### Files -/

def plainLineEnds : List Char → List Char
  | '\r' :: '\n' :: rest => '\n' :: plainLineEnds rest
  | '\r' :: rest => '\n' :: plainLineEnds rest
  | c :: rest => c :: plainLineEnds rest
  | [] => []

def fileOf? (directory : Directory) (folder name : String) : Option String :=
  if directory.isFile (folder ++ "/" ++ name ++ ".m") then some (folder ++ "/" ++ name ++ ".m")
  else if directory.isFile (folder ++ "/" ++ name) then some (folder ++ "/" ++ name)
  else none

def filesOf (directory : Directory) (folder : String) (names : List String) : List String :=
  names.reverse.filterMap (fileOf? directory folder)

def lastProgram : Edit NodeId :=
  child root (-1)

def loadFile (reset : Bool) (told : Told) (path : String) : Edit Told := do
  let some text := (← get).directory.file? path | throw .violated
  let code := String.ofList (plainLineEnds text.toList)
  match ← if reset then pure none else readSupplement told path with
  | some told =>
    let verbatims ← toldVerbatims told
    load path (← (Verbatim.markLines verbatims code : Except Failure String))
    tell (← lastProgram) told
    return told
  | none =>
    load path code
    return told

/-- Loads files one after the other, and after them those that their unknown names stand for, each
of them once and at most `n`. -/
def loadFiles (arguments : Arguments) (folder : String) :
    Nat → Told → (loaded waiting : List String) → Edit Unit
  | 0, _, _, _ => return ()
  | _, _, _, [] => return ()
  | n + 1, told, loaded, path :: waiting => do
    if arguments.disp then display ("loading " ++ path)
    let told ← loadFile arguments.reset told path
    let program ← lastProgram
    let found := filesOf (← get).directory folder (← unknownsNamed path)
    found.forM fun file => includeFile program file
    let loaded := path :: loaded
    let fresh := found.eraseDups.filter fun file =>
      !loaded.contains file && !waiting.contains file
    loadFiles arguments folder n told loaded (waiting ++ fresh)

/-- Loads a file and all files it needs, or source text that is given in the place of a file. -/
def loadSources (arguments : Arguments) : Edit Unit := do
  let directory := (← get).directory
  if directory.isFile arguments.filename then
    if arguments.disp then display "building tree..."
    let path := Path.absolute directory.path arguments.filename
    let folder := Path.absolute directory.path (Path.parent arguments.filename)
    loadFiles arguments folder (directory.files.length + 1) {} [] [path]
  else load "unnamed" arguments.filename

end Edit

end ArmaGen
