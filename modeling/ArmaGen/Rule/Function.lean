import ArmaGen.Rule.Assign
import ArmaGen.Rule.Block
import ArmaGen.Rule.Variable
import ArmaGen.Supplement.Table
import ArmaGen.Text.Case

/-!
# Rules for functions

A function with one result gives it back, other functions take their results as references. The
variables of a function are declared at its start, grouped by their datatypes.
-/

namespace ArmaGen.Rule

open Edit

/-! ### Datatypes in declarations -/

def typeList (ids : List NodeId) : Edit String := do
  return joinWith ", " (← ids.mapM fun id => return (← typeOf id).name)

def functionType (func : NodeId) : Edit String := do
  let returns ← children (← child func 1)
  let params ← children (← child func 2)
  let (result, params) ← match returns with
    | [] => pure ("void", ← typeList params)
    | [only] => pure ((← typeOf only).name, ← typeList params)
    | _ => pure ("void", ← typeList (params ++ returns))
  return "std::function<" ++ result ++ "(" ++ params ++ ")>"

def lambdaOf? (id : NodeId) : Edit (Option NodeId) := do
  match (← node (← declaration id)).reference? with
  | some func => return some func
  | none =>
    let funcs ← child (← program id) 1
    let name := "_" ++ (← name id)
    if ← hasChild funcs name then return some (← childNamed funcs name) else return none

def recordName (name : String) : String :=
  "_" ++ capitalize name

def declaredType (id : NodeId) : Edit String := do
  match ← typeOf id with
  | .other .lambda =>
    match ← lambdaOf? id with
    | some func => functionType func
    | none =>
      warning id "lambda function content not found"
      return "std::function"
  | .other .struct | .other .structs =>
    let declaration ← declaration id
    let above ← parent declaration
    let named := if (← kind above) == .struct then above else declaration
    return recordName (← name named)
  | .other .string => return "std::string"
  | type => return type.name

def declaredList (mark : String) (ids : List NodeId) : Edit String := do
  return joinWith ", " (← ids.mapM fun id =>
    return (← declaredType id) ++ mark ++ (← str id))

/-! ### Declared variables -/

def recordCount (id : NodeId) : Edit String := do
  let records ← structsOf id
  let name ← name id
  match ← (← children records).filterM fun record => return (← node record).name == name with
  | [] => throw .unreadable
  | record :: _ =>
    match ← (← children record).filterM fun field => return (← node field).name == "_size" with
    | [] => throw .unreadable
    | size :: _ => return "[" ++ (← value size) ++ "]"

def declaredName (lists : List String) (id : NodeId) : Edit String := do
  let text ← str id
  if lists.contains (← name id) then return text ++ (← recordCount id) else return text

def sortByName (ids : List NodeId) : Edit (List NodeId) := do
  let named ← ids.mapM fun id => return (← name id, id)
  return (named.mergeSort fun a b => a.1 ≤ b.1).map (·.2)

def groupByType (type : NodeId → Edit String) (ids : List NodeId) :
    Edit (Table (List NodeId)) :=
  ids.foldlM (fun groups id => do
    let type ← type id
    return groups.put type ((groups.get? type).getD [] ++ [id])) []

def declareAll (ids : List NodeId) : Edit String := do
  let groups ← groupByType declaredType ids
  let lists ← (← ids.filterM fun id => return (← typeOf id) == .structs).mapM name
  let lines ← (groups.mergeSort fun a b => a.1 ≤ b.1).mapM fun (type, ids) => do
    let names ← (← sortByName ids).mapM fun id => declaredName lists id
    return type ++ " " ++ joinWith ", " names ++ " ;"
  return joinWith "\n" lines

def declares (results : Bool) : Rule := fun id => do
  match ← children id with
  | [] => Emit.text ""
  | declared =>
    let returned ← names (← child (← parent id) 1)
    let wanted ← (declared.filterM fun id => return results || !returned.contains (← name id) :
      Edit (List NodeId))
    Emit.text (← declareAll wanted)

/-! ### Functions with one result -/

def firstNamed? (id : NodeId) (name : String) : Edit (Option NodeId) := do
  match (← names id).idxOf? name with
  | some i => return (← children id)[i]?
  | none => return none

/-- The node that gives a function's result its datatype, which may be a parameter that stands where
the result does. -/
def resultNode (func : NodeId) : Edit NodeId := do
  let returns ← child func 1
  let result ← name (← child returns 0)
  let declared ← firstNamed? (← child func 0) result
  let params ← child func 2
  if ← hasChild params result then
    match (← names returns).idxOf? result with
    | some i => child params i
    | none => throw .unreadable
  else match declared with
    | some id => return id
    | none => throw .unset

def endsWithReturn (block : NodeId) : Edit Bool := do
  let last ← child block (-1)
  if (← count last) == 0 then return false
  else return (← kind (← child last (-1))) == .returnCall

def returnFunction : Rule := fun id => do
  let type ← declaredType (← resultNode id)
  let head := type ++ " %(name)s(%(2)s)"
  let block ← child id (-1)
  if (← count block) == 0 then Emit.text (withBlock head "return %(1)s")
  else if ← endsWithReturn block then Emit.text (withBlock head "%(0)s\n%(3)s")
  else Emit.text (withBlock head "%(0)s\n%(3)s\nreturn %(1)s ;")

def mainFunction : Rule := fun id => do
  let head := "int main(int argc, char** argv)"
  if (← count (← child id 0)) == 0 then Emit.text (withBlock head "%(3)s\nreturn 0 ;")
  else Emit.text (withBlock head "%(0)s\n%(3)s\nreturn 0 ;")

def returnRule? : Kind → Option Rule
  | .var | .get => some get
  | .returns => some fun _ => return some (.pieces ["", ""])
  | .params => some fun id => do Emit.text (← declaredList " " (← children id))
  | .declares => some (declares true)
  | .func => some returnFunction
  | .main => some mainFunction
  | .assign => some assign
  | _ => none

/-! ### Functions with several results, or none -/

def returnsFunction : Rule := fun id => do
  let declares ← count (← child id 0)
  let returns ← count (← child id 1)
  let params ← count (← child id 2)
  let separator := if returns != 0 && params != 0 then ", " else ""
  let head := "void %(name)s(%(2)s" ++ separator ++ "%(1)s)"
  Emit.text (withBlock head (if returns < declares then "%(0)s\n%(3)s" else "%(3)s"))

def assignResults : Rule := fun id => do
  let arguments ← childTexts (← child id (-1))
  let results ← childTexts id
  let separator := if arguments.isEmpty then "" else ", "
  Emit.text ("%(name)s(" ++ joinWith ", " arguments ++ separator ++
    joinWith ", " results.dropLast ++ ") ;")

def returnsRule? : Kind → Option Rule
  | .func => some returnsFunction
  | .var | .get => some get
  | .assign | .assigns => some assignResults
  | .returns => some fun id => do Emit.text (← declaredList "& " (← children id))
  | .params => some fun id => do Emit.text (← declaredList " " (← children id))
  | .declares => some (declares false)
  | _ => none

/-! ### Anonymous functions -/

def lambda : Rule := fun id => do
  let some lambda := (← node id).reference? | throw Failure.noAttribute
  let (captured, _, params, block) ← functionParts lambda
  let expression ← child (← child block 0) 1
  let (declares, _, _, _) ← functionParts (← func id)
  let captured ← names captured
  let names := (← names declares).filter captured.contains
  Emit.tree expression
  Emit.tree lambda
  Emit.text ("[" ++ joinWith ", " names ++ "] (" ++ (← str params) ++ ") \x7b" ++
    (← str expression) ++ " ; \x7d")

def lambdaParams (params : List NodeId) : Edit String := do
  return joinWith ", " (← params.mapM fun param =>
    return (← declaredType param) ++ " " ++ (← name param))

def lambdaRule? : Kind → Option Rule
  | .get => some get
  | .var => some fun _ => Emit.text "%(name)s"
  | .lambda => some lambda
  | .returns | .declares | .func => some fun _ => Emit.text ""
  | .params => some fun id => do Emit.text (← lambdaParams (← children id))
  | .assign => some assign
  | _ => none

end ArmaGen.Rule
