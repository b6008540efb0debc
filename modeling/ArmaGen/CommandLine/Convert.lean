import ArmaGen.CommandLine.Sources
import ArmaGen.Project.Prune

/-!
# Converting files

All files that are needed are loaded, and for each of them a source or header file, a log and a
supplement are written. At the end a part of the result is shown.
-/

namespace ArmaGen

def Arguments.options (arguments : Arguments) : Options :=
  { disp := arguments.disp, comments := arguments.comments, echo := arguments.echo }

namespace Edit

/-! ### Writing files -/

def writeFile (path text : String) : Edit Unit :=
  modify fun project => { project with directory := project.directory.write path text }

def removeFile (path : String) : Edit Unit :=
  modify fun project => { project with directory := project.directory.remove path }

def stampLine (stamp : String) : String :=
  "Automatically translated using Matlab2cpp 0.5 on " ++ stamp ++ "\n"

/-- Writes the files of a program that have content; with `reset` older ones are removed. -/
def writeProgram (arguments : Arguments) (stamp : String) (program : NodeId) : Edit Unit := do
  let path ← name program
  let source ← sourceText program
  let header ← headerText program
  let supplement ← supplementText true program
  let log ← logText program
  if arguments.disp then display "Writing files..."
  if arguments.reset then
    [".cpp", ".hpp", ".log", ".py"].forM fun extension => removeFile (path ++ extension)
  if !source.isEmpty then
    writeFile (path ++ ".cpp") ("// " ++ stampLine stamp ++ "\n" ++ source)
  if !header.isEmpty then
    writeFile (path ++ ".hpp") ("// " ++ stampLine stamp ++ blanks 12 ++ "\n" ++ header)
  if !log.isEmpty then writeFile (path ++ ".log") (stampLine stamp ++ "\n" ++ log)
  writeFile (path ++ ".py") supplement
  removeFile (path ++ ".pyc")

/-! ### Showing results -/

def showTree (arguments : Arguments) (id : NodeId) : Edit Unit := do
  if arguments.disp then
    display ("iterating over " ++ toString (← nodesBelow id).length ++ " nodes")
  match arguments.line? with
  | some line => display (← summaryAt line id)
  | none => display (← summary id)

def showLine (line : Int) (funcs : NodeId) : Edit Unit := do
  match ← firstOnLine line (← nodesBelow funcs) with
  | some id => display (showPercent (← str id))
  | none => return ()

def showResult (arguments : Arguments) : Edit Unit := do
  let program ← firstProgram
  if arguments.treeFull then showTree arguments program
  else
    let funcs ← child program 1
    if arguments.tree then
      let first ← child funcs 0
      showTree arguments (← if (← kind first) == .main then child first 3 else pure funcs)
    else match arguments.line? with
      | none | some 0 => display (showPercent (← str funcs))
      | some line => showLine line funcs

/-! ### The whole work -/

def convert (arguments : Arguments) (stamp : String) : Edit Unit := do
  loadSources arguments
  if arguments.disp then display "configure tree"
  configure arguments.suggest
  prune arguments.nargin
  if arguments.disp then
    display (← summary root)
    display "generate translation"
  emit root
  (← children root).forM (writeProgram arguments stamp)
  showResult arguments

end Edit

def Arguments.run (arguments : Arguments) (stamp : String) (directory : Directory) :
    Except Failure Unit × Project :=
  match (Edit.convert arguments stamp).run { options := arguments.options, directory } with
  | .ok _ project => (.ok (), project)
  | .error failure project => (.error failure, project)

end ArmaGen
