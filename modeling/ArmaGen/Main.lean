import ArmaGen.CommandLine.Convert
import ArmaGen.CommandLine.Help
import Std.Time.Format

/-!
# The command line

Reads the files of the working directory and of the directory of the file that is named, does the
work on them, and writes back what has changed.
-/

namespace ArmaGen.Console

def textOf (path : String) : IO String := do
  try IO.FS.readFile path catch _ => pure ""

def filesBeside (directory path : String) : IO (List (String × String)) := do
  let folder := Path.absolute directory (Path.parent path)
  let here ← IO.currentDir
  try
    let entries ← (here / folder).readDir
    let files ← entries.toList.filterM fun entry => return !(← entry.path.isDir)
    files.mapM fun entry => do
      let path := folder ++ "/" ++ entry.fileName
      return (path, ← textOf path)
  catch _ => pure []

def writeBack (before after : List (String × String)) : IO Unit := do
  for (path, text) in after do
    if before.lookup path != some text then IO.FS.writeFile path text
  for (path, _) in before do
    if (after.lookup path).isNone then IO.FS.removeFile path

def stamp : IO String := do
  return (← Std.Time.PlainDateTime.now).format "uuuu-MM-dd HH:mm:ss"

def complain (failure : Failure) : IO UInt32 := do
  IO.eprintln (failure.report?.getD "error")
  return 1

def run (line : List String) : IO UInt32 := do
  match Arguments.read line with
  | .error .help =>
    IO.println helpText
    return 0
  | .error _ =>
    IO.eprintln usageText
    return 2
  | .ok arguments =>
    let path := (← IO.currentDir).toString
    let here ← filesBeside path "file"
    let beside ← filesBeside path arguments.filename
    let files := here ++ beside.filter fun file => (here.lookup file.1).isNone
    let (outcome, project) := arguments.run (← stamp) { path, files }
    writeBack files project.directory.files
    for shown in project.shown.reverse do IO.println shown
    match outcome with
    | .ok _ => return 0
    | .error failure => complain failure

end ArmaGen.Console

def main (line : List String) : IO UInt32 :=
  ArmaGen.Console.run line
