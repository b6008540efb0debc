import ArmaGen.Project.Typing

/-!
# Declaring what a node names

A variable is declared among the variables of its function. A field is declared in the record of the
same name, and the record among the variables; lists of records also get a length.
-/

namespace ArmaGen.Edit

def makeTyped (parent : NodeId) (name value : String) (type : Datatype) : Edit Unit := do
  let var ← make parent { kind := .var, name, value }
  setType var type

def declareField (id : NodeId) (field : String) : Edit Unit := do
  let node ← node id
  let structs ← structsOf id
  if (← kind structs) != .structs then throw .violated
  else
    let struct ←
      if ← hasChild structs node.name then childNamed structs node.name
      else make structs { kind := .struct, name := node.name }
    if ← hasChild struct field then return ()
    else
      let declares ← declaresOf id
      if node.kind == .sset || node.kind == .sget then
        if !(← hasChild struct "_size") then
          let _ ← make struct { kind := .counter, name := "_size", value := "100" }
        if !(← hasChild declares node.name) then makeTyped declares node.name field .structs
      else if !(← hasChild declares node.name) then
        makeTyped declares node.name field .struct
      let _ ← make struct { kind := .var, name := field }

def declareVariable (id : NodeId) : Edit Unit := do
  let name ← name id
  let declares ← declaresOf id
  if ← hasChild declares name then
    let declared ← childNamed declares name
    setType declared (← typeOf id)
    let pointer := (← node id).pointer
    update declared fun node => { node with pointer }
  else
    let node ← node id
    let declared ← make declares
      { kind := .var, name, pointer := node.pointer, value := node.value }
    setType declared (← typeOf id)

def declare (id : NodeId) : Edit Unit := do
  if (← declaration id) != id then return ()
  else
    let node ← node id
    if node.kind == .nget || node.kind == .nset then
      let index ← child id 0
      if (← kind index) == .string then return ()
      else declareField id (← value index)
    else if node.kind.isField then declareField id node.value
    else declareVariable id

end ArmaGen.Edit
