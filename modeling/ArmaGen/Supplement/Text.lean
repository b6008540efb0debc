import ArmaGen.Supplement.Views

/-!
# Supplements as texts

What is told about a program beside its text is kept in a file that can be edited. Variables
without a datatype are listed with the datatype that is suggested for them.
-/

namespace ArmaGen

structure Supplement where
  functions : TypeTable := []
  structs : TypeTable := []
  includes : List String := []
  verbatims : Table String := []
deriving Repr, DecidableEq, Inhabited

namespace Supplement

def explanation : String :=
  "# encoding: utf-8\n#\n# Supplement file\n#\n# Valid inputs:\n#\n" ++
  "# uword   int     float   double cx_double\n" ++
  "# uvec    ivec    fvec    vec    cx_vec\n" ++
  "# urowvec irowvec frowvec rowvec cx_rowvec\n" ++
  "# umat    imat    fmat    mat    cx_mat\n" ++
  "# ucube   icube   fcube   cube   cx_cube\n#\n" ++
  "# char    string  struct  structs func_lambda\n"

def sorted {α : Type} (table : Table α) : Table α :=
  table.mergeSort fun a b => a.1 ≤ b.1

def widest {α : Type} (table : Table α) : Nat :=
  (table.map fun entry => entry.1.length).foldl max 0

def quotedKey (width : Nat) (key : String) : String :=
  blanks (width - key.length) ++ "\"" ++ key ++ "\" : "

def quotedEntry (suggested : Option TypeEntry) (entry : TypeEntry) : String :=
  if entry.isSet then "\"" ++ entry.text ++ "\",\n"
  else match suggested with
    | some suggestion =>
      if suggestion.isSet then "\"\", # " ++ suggestion.text ++ "\n" else "\"\",\n"
    | none => "\"\",\n"

/-- The line of a variable of a function. Variables that start with an underscore are left out. -/
def variableLine (width : Nat) (suggested : Option TypeEntry) (key : String)
    (entry : TypeEntry) : String :=
  if key.toList.head? == some '_' then ""
  else quotedKey width key ++ quotedEntry suggested entry

def isLength (key : String) : Bool :=
  key.toList.drop (key.length - 5) == "_size".toList

/-- The line of a field of a record. Lengths are numbers, one hundred if they are not told. -/
def fieldLine (width : Nat) (suggested : Option TypeEntry) (key : String)
    (entry : TypeEntry) : String :=
  if isLength key then
    quotedKey width key ++ (if entry.isSet then entry.text else "100") ++ ",\n"
  else quotedKey width key ++ quotedEntry suggested entry

def groupLines (line : Nat → Option TypeEntry → String → TypeEntry → String)
    (suggestions : TypeTable) (name : String) (entries : Table TypeEntry) : String :=
  let suggested := (suggestions.get? name).getD []
  let width := widest entries + 4
  "  \"" ++ name ++ "\" : \x7b\n" ++
    String.join ((sorted entries).map fun (key, entry) =>
      line width (suggested.get? key) key entry) ++
    "  \x7d,\n"

def functionsText (suggestions : TypeTable) (functions : TypeTable) : String :=
  "functions = \x7b\n" ++
    String.join ((sorted functions).map fun (name, entries) =>
      groupLines variableLine suggestions name entries) ++
    "\x7d"

def structsText (suggestions : TypeTable) (structs : TypeTable) : Except Failure String :=
  if structs.any fun (_, entries) => entries.isEmpty then .error .unreadable
  else .ok ("structs = \x7b\n" ++
    String.join ((sorted structs).map fun (name, entries) =>
      groupLines fieldLine suggestions name entries) ++
    "\x7d")

def includesText (includes : List String) : String :=
  "includes = [\n" ++
    String.join ((includes.filter (· != "")).map fun line => "  '" ++ line ++ "',\n") ++ "]"

/-- The line of a word and its output; output of several lines is in three quotes. -/
def verbatimLine (width : Nat) (key output : String) : String :=
  let quotes := if output.toList.contains '\n' then "\"\"\"" else "\""
  quotedKey width key ++ quotes ++ output ++ quotes ++ ",\n"

def verbatimsText (verbatims : Table String) : String :=
  let width := widest verbatims + 2
  "verbatims = \x7b\n" ++
    String.join ((sorted verbatims).map fun (key, output) => verbatimLine width key output) ++
    "\x7d"

/-- The supplement as a text, with suggestions; `explained` with an explanation before it. -/
def text (supplement : Supplement) (suggestions : TypeTable) (explained : Bool) :
    Except Failure String := do
  let structs ← if supplement.structs.isEmpty then pure []
    else do pure [← structsText suggestions supplement.structs]
  let functions := if supplement.functions.isEmpty then []
    else [functionsText suggestions supplement.functions]
  let includes := if supplement.includes.isEmpty then [] else [includesText supplement.includes]
  let verbatims := if supplement.verbatims.isEmpty then []
    else [verbatimsText supplement.verbatims]
  let start := if explained then [explanation] else []
  return joinWith "\n" (start ++ functions ++ structs ++ includes ++ verbatims)

end Supplement

end ArmaGen
