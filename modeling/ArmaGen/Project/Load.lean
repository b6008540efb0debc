import ArmaGen.Project.Install
import ArmaGen.Rule.ReservedNames
import ArmaGen.Syntax.Function
import ArmaGen.Text.Continuation

/-!
# Loading programs

Loading reads a program and builds it into the project. If reading fails, what was read up to there
stays. Then the names that nothing assigns are found: the reserved ones among them get their rules,
the others are the unknown names of the program.
-/

namespace ArmaGen

/-! ### Names that nothing assigns -/

/-- Notes that a name occurs, and whether it is assigned there, in the order of first occurrence. -/
def noteOccurrence (name : String) (assigned : Bool) :
    List (String × Bool) → List (String × Bool)
  | [] => [(name, assigned)]
  | (other, known) :: rest =>
    if other == name then (other, known || assigned) :: rest
    else (other, known) :: noteOccurrence name assigned rest

def occurrences (project : Project) (ids : List NodeId) : List (String × Bool) :=
  ids.foldl (fun names id =>
    let node := project.node id
    if node.kind.isName then
      let above := (project.node node.parent).kind
      noteOccurrence node.name (above == .params || above == .declares) names
    else names) []

def unassignedNames (project : Project) (ids : List NodeId) : List String :=
  (occurrences project ids).filterMap fun (name, assigned) =>
    if assigned then none else some name

namespace Edit

def reserveNames (reserved : List String) : List NodeId → Edit Unit
  | [] => return ()
  | id :: rest => do
    if reserved.contains (← name id) then setBackend id .reserved
    reserveNames reserved rest

def findUnassigned (name : String) : Edit Unit := do
  match (← names root).idxOf? name with
  | none => throw .unreadable
  | some index =>
    let program ← child root index
    let ids ← nodesBottomUp program
    let (reserved, unassigned) :=
      (unassignedNames (← get) ids).partition fun name => reservedNames.contains name
    reserveNames reserved ids
    update program fun node => { node with unassigned? := some unassigned }

/-! ### Loading -/

def displayAll (lines : List String) : Edit Unit :=
  modify fun project => { project with shown := lines.reverse ++ project.shown }

def build {α : Type} (parent : NodeId) (text : String) (parser : Parse α) : Edit α := do
  let options := (← get).options
  let parsed := parser
    { source := .ofString text, comments := options.comments, disp := options.disp }
  displayAll parsed.notes
  install parent parsed.made
  (parsed.outcome : Except Failure α)

/-- The parts of a new program; the result is the one its functions go to. -/
def makeParts (program : NodeId) (name : String) : Edit NodeId := do
  let _ ← make program { kind := .includes, value := name, code? := some "" }
  let funcs ← make program { kind := .funcs, name, line? := some 1 }
  let _ ← make program { kind := .inlines, name }
  let _ ← make program { kind := .structs, name }
  let _ ← make program { kind := .headers, name }
  let _ ← make program { kind := .log, name }
  return funcs

def makeProgram (name text : String) : Edit NodeId := do
  makeParts (← make root { kind := .program, name, cur? := some 0, code? := some text }) name

def load (name code : String) : Edit Unit := do
  if (← get).options.disp then display ("loading " ++ name)
  let text := programText code
  modify fun project => { project with text? := some text }
  build (← makeProgram name text) text Parse.program
  findUnassigned name

def unknowns (index : Int) : Edit (List String) := do
  match (← node (← child root index)).unassigned? with
  | some names => return names
  | none => throw .noAttribute

def unknownsNamed (name : String) : Edit (List String) := do
  match (← names root).idxOf? name with
  | some index => unknowns index
  | none => throw .unreadable

end Edit

end ArmaGen
