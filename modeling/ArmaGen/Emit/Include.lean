import ArmaGen.Emit.Emission
import ArmaGen.Emit.Library
import ArmaGen.Project.Lookup
import ArmaGen.Text.Path

/-!
# Including files

Emitted programs include the libraries they need: files at hand by their path as seen from the
program, known libraries by their lines. The library of helpers is written beside the program if it
is not there yet.
-/

namespace ArmaGen

namespace Directory

/-- Whether a path, given by its parts, is that of a folder: one above or at the working directory,
or one above a file. -/
def isFolder (directory : Directory) (parts : List String) : Bool :=
  let paths := (directory.path ++ "/") :: directory.files.map (·.1)
  paths.any fun path => parts.isPrefixOf ((splitText "/" path).dropLast.drop 1)

/-- Where a path leads to from a folder, both given by their parts, the folder in reverse order.
All parts but the last one lead to folders. -/
def follow (directory : Directory) : List String → List String → Option (List String)
  | place, [] => some place.reverse
  | place, part :: rest =>
    if !directory.isFolder place.reverse then none
    else if part.isEmpty || part == "." then directory.follow place rest
    else if part == ".." then directory.follow place.tail rest
    else directory.follow (part :: place) rest

def resolve? (directory : Directory) (path : String) : Option String :=
  let start := if Path.isAbsolute path then [] else Path.absoluteParts directory.path ""
  (directory.follow start.reverse (splitText "/" path)).map fun parts =>
    "/" ++ joinWith "/" parts

def file? (directory : Directory) (path : String) : Option String :=
  (directory.resolve? path).bind fun path => directory.files.lookup path

def isFile (directory : Directory) (path : String) : Bool :=
  (directory.file? path).isSome

/-- The directory with a file written: the file of that path, or a new one. -/
def write (directory : Directory) (path text : String) : Directory :=
  let path := Path.absolute directory.path path
  if directory.files.any fun file => file.1 == path then
    { directory with files := directory.files.map fun file =>
        if file.1 == path then (path, text) else file }
  else { directory with files := directory.files ++ [(path, text)] }

def remove (directory : Directory) (path : String) : Directory :=
  let path := Path.absolute directory.path path
  { directory with files := directory.files.filter fun file => file.1 != path }

def isHere (directory : Directory) (path : String) : Bool :=
  directory.resolve? path == directory.resolve? "."

end Directory

namespace Edit

def libraryLine : String → String
  | "SPlot" => "#include \"SPlot.h\""
  | "m2cpp" => "#include \"mconvert.h\""
  | "arma" => "#include <armadillo>"
  | "iostream" => "#include <iostream>"
  | "cmath" => "#include <cmath>"
  | "algorithm" => "#include <algorithm>"
  | _ => ""

/-- Writes the library of helpers beside a program, given by its path, unless it is there. -/
def writeLibrary (path : String) : Edit Unit := do
  match (splitText "/" path).dropLast with
  | [] => return ()
  | parts =>
    let folder := joinWith "/" parts
    let file := folder ++ "/mconvert.h"
    let directory := (← get).directory
    if !directory.isFile file && directory.isHere (folder ++ "/") then
      modify fun project => { project with directory := project.directory.write file library }

def addInclude (id : NodeId) (line : String) : Edit Unit := do
  let includes ← includesOf id
  if !line.isEmpty && !(← hasChild includes line) then
    let _ ← make includes
      { kind := .include, name := line, value := ← value includes, backend := .program }

def includeFile (id : NodeId) (wanted : String) : Edit Unit := do
  let directory := (← get).directory
  if directory.isFile wanted then
    let folder := Path.parent (← name (← program id))
    let path := Path.relative directory.path wanted folder
    addInclude id (if (← name id) == path then "" else "#include \"" ++ path ++ ".hpp\"")
  else
    if wanted == "m2cpp" then writeLibrary (← name (← funcsOf id))
    addInclude id (libraryLine wanted)

end Edit

def Emit.includeArmadillo (id : NodeId) : Emit Unit := do
  let includes ← Edit.includesOf id
  let file := "#include <armadillo>"
  let namespaceLine := "using namespace arma ;"
  let names ← Edit.names includes
  if !(names.contains file && names.contains namespaceLine) then
    Edit.addInclude id file
    Edit.addInclude id namespaceLine
    Emit.tree includes

end ArmaGen
