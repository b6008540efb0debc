import ArmaGen.Project.Traverse
import ArmaGen.Project.Typing
import ArmaGen.Supplement.Table
import ArmaGen.Text.Quoted

/-!
# What is told about a program beside its text

The datatypes of variables and of fields, the files a program includes and the datatypes suggested
so far, as tables. All but the suggestions can be written back.
-/

namespace ArmaGen

inductive TypeEntry where
  | named (name : String)
  | ranks (shape element : Option Int)
  | number (n : Int)
  | names (names : List String)
  | numbers (ns : List Int)
deriving Repr, DecidableEq, Inhabited

abbrev TypeTable := Table (Table TypeEntry)

namespace TypeEntry

def optionText : Option Int → String
  | some n => toString n
  | none => "None"

def text : TypeEntry → String
  | .named name => name
  | .ranks shape element => "(" ++ optionText shape ++ ", " ++ optionText element ++ ")"
  | .number n => toString n
  | .names items => "[" ++ joinWith ", " (items.map quoted) ++ "]"
  | .numbers ns => "[" ++ joinWith ", " (ns.map toString) ++ "]"

def isSet : TypeEntry → Bool
  | .named name => !name.isEmpty
  | .ranks _ _ => true
  | .number n => n != 0
  | .names items => !items.isEmpty
  | .numbers ns => !ns.isEmpty

def ofSuggestion : Suggestion → TypeEntry
  | .type .unknown => .named ""
  | .type type => .named type.name
  | .ranks shape element => .ranks shape element
  | .types types => .names (types.map Datatype.name)

end TypeEntry

namespace Edit

def setEntry (id : NodeId) : TypeEntry → Edit Unit
  | .named name => setTypeNamed id name
  | .ranks (some shape) (some element) => setTypeRanks id shape element
  | .ranks _ _ => throw .wrongSort
  | .number n => if n == 0 then setType id .unknown else throw .wrongSort
  | .names items => setCommonType id (items.map Datatype.ofName)
  | .numbers [shape, element] => setTypeRanks id shape element
  | .numbers ns => if ns.isEmpty then setType id .unknown else throw .wrongSort

def knownName : Datatype → String
  | .unknown => ""
  | type => type.name

/-! ### Functions -/

def variableTypes (table : Table String) : List NodeId → Edit (Table String)
  | [] => return table
  | id :: rest => do
    let type ← typeOf id
    variableTypes (table.put (← name id) (knownName type)) rest

def functionVariables (func : NodeId) : Edit (List NodeId) := do
  let declares ← child func 0
  let params ← child func 2
  return (← children declares) ++ (← children params)

def functionTypesOf (table : Table (Table String)) :
    List NodeId → Edit (Table (Table String))
  | [] => return table
  | func :: rest => do
    let types ← variableTypes [] (← functionVariables func)
    functionTypesOf (table.put (← name func) types) rest

def functionTypes (id : NodeId) : Edit (Table (Table String)) := do
  functionTypesOf [] (← children (← funcsOf id))

/-- Sets the datatype of a variable of a function, in both places if it is a result too. -/
def setVariableType (declares returns params : NodeId) (key : String) (entry : TypeEntry) :
    Edit Unit := do
  if ← hasChild declares key then
    if ← hasChild returns key then setEntry (← childNamed returns key) entry
    setEntry (← childNamed declares key) entry
  else if ← hasChild params key then setEntry (← childNamed params key) entry

def setVariableTypes (declares returns params : NodeId) : Table TypeEntry → Edit Unit
  | [] => return ()
  | (key, entry) :: rest => do
    setVariableType declares returns params key entry
    setVariableTypes declares returns params rest

def setFunctionTypesIn (funcs : NodeId) : TypeTable → Edit Unit
  | [] => return ()
  | (name, types) :: rest => do
    if ← hasChild funcs name then
      match ← children (← childNamed funcs name) with
      | declares :: returns :: params :: _ => setVariableTypes declares returns params types
      | _ => throw .unreadable
    setFunctionTypesIn funcs rest

def setFunctionTypes (id : NodeId) (types : TypeTable) : Edit Unit := do
  setFunctionTypesIn (← funcsOf id) types

/-! ### Records -/

/-- The datatypes of the fields of a record, with the value of a length in its place. -/
def fieldTypes (table : Table String) : List NodeId → Edit (Table String)
  | [] => return table
  | id :: rest => do
    let node ← node id
    let type := match node.type with
      | .other .structs => node.value
      | type => knownName type
    fieldTypes (table.put node.name type) rest

def structTypesOf (table : Table (Table String)) : List NodeId → Edit (Table (Table String))
  | [] => return table
  | struct :: rest => do
    let types ← fieldTypes [] (← children struct)
    structTypesOf (table.put (← name struct) types) rest

def structTypes (id : NodeId) : Edit (Table (Table String)) := do
  structTypesOf [] (← children (← structsOf id))

/-- Sets the datatypes of the fields that a record has; a length is set to the value of its entry.
-/
def setFieldTypes (struct : NodeId) : Table TypeEntry → Edit Unit
  | [] => return ()
  | (key, entry) :: rest => do
    if ← hasChild struct key then
      let field ← childNamed struct key
      if (← kind field) == .counter then setValue field entry.text else setEntry field entry
      setFieldTypes struct rest
    else throw .noAttribute

def setStructTypesIn (structs : NodeId) : TypeTable → Edit Unit
  | [] => return ()
  | (name, types) :: rest => do
    if ← hasChild structs name then setFieldTypes (← childNamed structs name) types
    setStructTypesIn structs rest

def setStructTypes (id : NodeId) (types : TypeTable) : Edit Unit := do
  setStructTypesIn (← structsOf id) types

/-! ### Includes -/

def includeLines (id : NodeId) : Edit (List String) := do
  names (← includesOf id)

def addIncludeLines (includes : NodeId) : List String → Edit Unit
  | [] => return ()
  | line :: rest => do
    if !(← hasChild includes line) then
      let _ ← make includes { kind := .include, name := line }
    addIncludeLines includes rest

def setIncludeLines (id : NodeId) (lines : List String) : Edit Unit := do
  addIncludeLines (← includesOf id) lines

/-! ### Lines with their own output -/

def verbatimsOf (table : Table String) : List NodeId → Edit (Table String)
  | [] => return table
  | id :: rest => do
    let node ← node id
    verbatimsOf (if node.kind == .verbatim then table.put node.name node.value else table) rest

def verbatimsBelow (id : NodeId) : Edit (Table String) := do
  verbatimsOf [] (← nodesBelow id)

/-- The output of the lines with their own output below a node, or what was told for it. -/
def verbatims (id : NodeId) : Edit (Table String) := do
  match (← node id).verbatims? with
  | some table => return table
  | none => verbatimsBelow id

def setVerbatims (id : NodeId) (table : Table String) : Edit Unit :=
  update id fun node => { node with verbatims? := some table }

/-! ### Whole projects -/

def mergedTable {α : Type} (view : NodeId → Edit (Table α)) : Edit (Table α) := do
  let tables ← (← children root).mapM view
  return tables.foldl Table.update []

def allIncludeLines : Edit (List String) := do
  let lines ← (← children root).mapM includeLines
  return lines.flatten.eraseDups.mergeSort fun a b => a ≤ b

/-! ### Suggestions -/

def suggestionsFor (table : Table TypeEntry) : List NodeId → Edit (Table TypeEntry)
  | [] => return table
  | id :: rest => do
    let node ← node id
    let entry := TypeEntry.ofSuggestion node.suggestion
    let wanted := (knownName node.type).isEmpty && entry.isSet
    suggestionsFor (if wanted then table.put node.name entry else table) rest

def functionSuggestions (table : TypeTable) : List NodeId → Edit TypeTable
  | [] => return table
  | func :: rest => do
    let entries ← suggestionsFor [] (← functionVariables func)
    functionSuggestions (table.put (← name func) entries) rest

def structSuggestions (table : TypeTable) : List NodeId → Edit TypeTable
  | [] => return table
  | struct :: rest => do
    let entries ← suggestionsFor [] (← children struct)
    structSuggestions (table.put (← name struct) entries) rest

/-- The suggestions for all variables and fields without a datatype in the program around a
node. -/
def suggestions (id : NodeId) : Edit TypeTable := do
  let funcs ← funcsOf id
  let structs ← structsOf id
  structSuggestions (← functionSuggestions [] (← children funcs)) (← children structs)

end Edit

end ArmaGen
