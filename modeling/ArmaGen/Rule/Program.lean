import ArmaGen.Rule.Function
import ArmaGen.Text.Layout

/-!
# Rules for the parts of a program
-/

namespace ArmaGen.Rule

open Edit

def announcedList (mark : String) (ids : List NodeId) : Edit (List String) :=
  ids.mapM fun id => return (← typeOf id).name ++ mark ++ (← name id)

def header : Rule := fun id => do
  let funcs ← child (← program id) 1
  let some func ← firstNamed? funcs (← name id) | throw Failure.unreadable
  let name ← name func
  let rules ← backend func
  if rules == .funcReturn then
    let type := (← typeOf (← child (← child func 1) 0)).name
    let params ← announcedList " " (← children (← child func 2))
    Emit.text (type ++ " " ++ name ++ "(" ++ joinWith ", " params ++ ") ;")
  else if rules == .funcReturns then
    let returns ← children (← child func 1)
    let params ← announcedList " " (← children (← child func 2))
    let references ← announcedList "& " returns
    let separator := if returns.isEmpty then "" else ", "
    Emit.text ("void " ++ name ++ "(" ++ joinWith ", " params ++ separator ++
      joinWith ", " references ++ ") ;")
  else throw Failure.unset

def inlines : Rule := fun id => do
  match ← names id with
  | [] => Emit.text ""
  | names =>
    Emit.text ("#ifndef MCONVERT_H\n#define MCONVERT_H\n\nnamespace m2cpp\n\x7b\n" ++
      joinWith "\n\n" names ++ "\n\x7d\n\n#endif\n")

def messageTemplate (kind about : String) (cur : Nat) : String :=
  kind ++ " in class " ++ about ++ " on line %(line)d:\n%(code)s\n" ++ blanks cur ++ "^\n%(value)s"

def messageText (kind : String) : Rule := fun id => do
  let about := ((splitText ":" (← name id)).head?).getD ""
  Emit.text (messageTemplate kind about (← cur id).toNat)

/-- The rule for records: their fields, grouped by datatype. -/
def record : Rule := fun id => do
  let fields ← ((← children id).filterM fun field => return (← typeOf field) != .structs :
    Edit (List NodeId))
  let groups ← groupByType (fun field => return (← typeOf field).name) fields
  let lines ← (groups.mapM fun (type, fields) => do
    return "\n" ++ type ++ " " ++ joinWith ", " (← fields.mapM str) ++ " ;" :
    Edit (List String))
  Emit.text ("struct " ++ recordName (← name id) ++ "\n\x7b" ++ String.join lines ++ "\n\x7d ;")

def programRule? : Kind → Option Rule
  | .project | .inline => some fun _ => Emit.text ""
  | .program => some fun id => do
    Emit.includeArmadillo id
    Emit.text ""
  | .includes | .headers => some fun _ => Emit.around "" "\n" ""
  | .header => some header
  | .include => some fun _ => Emit.text "%(name)s"
  | .funcs => some fun id => do
    Emit.text (squeezeLines (joinWith "\n\n" (← childTexts id)))
  | .inlines => some inlines
  | .structs | .log => some fun _ => Emit.around "" "\n\n" ""
  | .error => some (messageText "Error")
  | .warning => some (messageText "Warning")
  | .struct => some record
  | _ => none

end ArmaGen.Rule
