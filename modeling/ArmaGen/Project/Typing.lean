import ArmaGen.Project.Lookup

/-!
# Reading and writing datatypes

The datatype of a node is its own, or that of its declaration while its own is not known. Shape and
element type can be written on their own, if the datatype is numerical already.
-/

namespace ArmaGen.Edit

/-! ### Reading -/

def typeOf (id : NodeId) : Edit Datatype := do
  match (← node id).type with
  | .unknown => return (← node (← declaration id)).type
  | type => return type

def shapeOf (id : NodeId) : Edit (Option Shape) := do
  (← typeOf id).shape?

def elementOf (id : NodeId) : Edit (Option Element) := do
  (← typeOf id).element?

def isNumeric (id : NodeId) : Edit Bool := do
  (← typeOf id).isNumeric

def hasShape (id : NodeId) (shape : Shape) : Edit Bool :=
  return (← shapeOf id) == some shape

def hasElement (id : NodeId) (element : Element) : Edit Bool :=
  return (← elementOf id) == some element

def isTyped (id : NodeId) : Edit Bool :=
  return (← typeOf id) != .unknown

def rankOf (id : NodeId) : Edit Nat := do
  match ← shapeOf id with
  | some shape => return shape.rank
  | none => throw .wrongSort

def elementRankOf (id : NodeId) : Edit Nat := do
  match ← elementOf id with
  | some element => return element.rank
  | none => throw .wrongSort

def childTypes (id : NodeId) : Edit (List Datatype) := do
  (← children id).mapM typeOf

/-! ### Writing -/

/-- Sets the datatype of a node and how many references lie before it, by the stars in a name. -/
def setTypeNamed (id : NodeId) (name : String) : Edit Unit :=
  let (stars, name) := Datatype.splitStars (if name.isEmpty then "TYPE" else name)
  update id fun node => { node with pointer := stars, type := .ofName name }

def setType (id : NodeId) (type : Datatype) : Edit Unit :=
  setTypeNamed id type.name

def setCommonType (id : NodeId) (types : List Datatype) : Edit Unit := do
  if types.isEmpty then setType id .unknown
  else
    let type ← (Datatype.commonStrict types : Except Failure Datatype)
    update id fun node => { node with type }

def setTypeRanks (id : NodeId) (shape element : Int) : Edit Unit := do
  let type ← (Datatype.ofRanks shape element : Except Failure Datatype)
  update id fun node => { node with type }

def setShapeRank (id : NodeId) (rank : Int) : Edit Unit := do
  let element? ← elementOf id
  let shape ← (Datatype.pick Shape.all rank : Except Failure Shape)
  match element? with
  | some element => update id fun node => { node with type := .num shape element }
  | none => throw .wrongSort

def setShape (id : NodeId) (shape : Shape) : Edit Unit :=
  setShapeRank id shape.rank

def setElementRank (id : NodeId) (rank : Int) : Edit Unit := do
  match ← shapeOf id with
  | some shape =>
    let element ← (Datatype.pick Element.all rank : Except Failure Element)
    update id fun node => { node with type := .num shape element }
  | none => throw .wrongSort

def setElement (id : NodeId) (element : Element) : Edit Unit :=
  setElementRank id element.rank

def clearType (id : NodeId) : Edit Unit :=
  update id fun node => { node with type := .unknown }

def suggest (id : NodeId) (suggestion : Suggestion) : Edit Unit := do
  if suggestion == .type .unknown then return ()
  else
    let declaration ← declaration id
    update declaration fun node => { node with suggestion }

def suggestType (id : NodeId) (type : Datatype) : Edit Unit :=
  suggest id (.type type)

end ArmaGen.Edit
