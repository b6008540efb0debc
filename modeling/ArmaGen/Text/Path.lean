import ArmaGen.Text.Words

/-!
# Paths of files

Paths are texts whose parts are separated by slashes. A path that starts with a slash is absolute,
any other is taken from a working directory.
-/

namespace ArmaGen.Path

/-- The parts of a path with empty parts and dots dropped, and steps upwards taken. -/
def simplify (rooted : Bool) : List String → List String → List String
  | done, [] => done.reverse
  | done, part :: rest =>
    if part.isEmpty || part == "." then simplify rooted done rest
    else if part == ".." then
      match done with
      | [] => simplify rooted (if rooted then [] else [".."]) rest
      | ".." :: _ => simplify rooted (".." :: done) rest
      | _ :: above => simplify rooted above rest
    else simplify rooted (part :: done) rest

def isAbsolute (path : String) : Bool :=
  path.startsWith "/"

def absoluteParts (directory path : String) : List String :=
  simplify true [] <|
    if isAbsolute path then splitText "/" path
    else splitText "/" directory ++ splitText "/" path

def absolute (directory path : String) : String :=
  "/" ++ joinWith "/" (absoluteParts directory path)

def fileName (path : String) : String :=
  (splitText "/" path).getLastD ""

def parent (path : String) : String :=
  match (splitText "/" path).dropLast with
  | [] => ""
  | parts =>
    if parts.all String.isEmpty then String.ofList (List.replicate parts.length '/')
    else joinWith "/" parts

def dropCommon : List String → List String → List String × List String
  | a :: rest, b :: others => if a == b then dropCommon rest others else (a :: rest, b :: others)
  | rest, others => (rest, others)

/-- A path as seen from another directory, both taken from a working directory. -/
def relative (directory path start : String) : String :=
  let (rest, up) := dropCommon (absoluteParts directory path) (absoluteParts directory start)
  match up.map (fun _ => "..") ++ rest with
  | [] => "."
  | parts => joinWith "/" parts

end ArmaGen.Path
