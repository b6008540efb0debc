import ArmaGen.Project.Node

/-!
# Projects and their edits

A `Project` holds the nodes of all programs and the settings they are read and emitted with. An
`Edit` is a computation on it that may fail; what it has done before a failure stays done.
-/

namespace ArmaGen

/-- A rule that a user gives for a kind of nodes, or for the nodes of a kind with a name. -/
inductive UserRule where
  | template (text : String)
  | pieces (texts : List String)
deriving Repr, DecidableEq, Inhabited

structure Options where
  disp : Bool := false
  comments : Bool := true
  echo : Bool := false
  rules : List (String × UserRule) := []
deriving Repr, DecidableEq, Inhabited

structure Directory where
  path : String := "/"
  files : List (String × String) := []
deriving Repr, DecidableEq, Inhabited

structure Project where
  /-- The nodes by address; the first one is the project itself. -/
  nodes : Array Node := #[{ kind := .project, cur? := some 0, line? := some 0, code? := some "" }]
  options : Options := {}
  text? : Option String := none
  configured : Bool := false
  depth : Nat := 0
  shown : List String := []
  directory : Directory := {}
deriving Repr, Inhabited

abbrev Edit := EStateM Failure Project

namespace Edit

instance : MonadLift (Except Failure) Edit where
  monadLift
    | .ok a => pure a
    | .error failure => throw failure

abbrev root : NodeId := 0

def node (id : NodeId) : Edit Node := do
  return (← get).nodes.getD id default

def update (id : NodeId) (f : Node → Node) : Edit Unit :=
  modify fun project => { project with nodes := project.nodes.modify id f }

def make (parent : NodeId) (node : Node) : Edit NodeId := do
  let id := (← get).nodes.size
  modify fun project => { project with nodes := project.nodes.push { node with parent } }
  update parent fun above => { above with children := above.children ++ [id] }
  return id

def display (line : String) : Edit Unit :=
  modify fun project => { project with shown := line :: project.shown }

/-! ### Fields -/

def kind (id : NodeId) : Edit Kind :=
  return (← node id).kind

def name (id : NodeId) : Edit String :=
  return (← node id).name

def value (id : NodeId) : Edit String :=
  return (← node id).value

def backend (id : NodeId) : Edit RuleSet :=
  return (← node id).backend

def str (id : NodeId) : Edit String :=
  return (← node id).str

def parent (id : NodeId) : Edit NodeId :=
  return (← node id).parent

def children (id : NodeId) : Edit (List NodeId) :=
  return (← node id).children

def count (id : NodeId) : Edit Nat :=
  return (← node id).children.length

def setName (id : NodeId) (name : String) : Edit Unit :=
  update id fun node => { node with name }

def setValue (id : NodeId) (value : String) : Edit Unit :=
  update id fun node => { node with value }

def setBackend (id : NodeId) (backend : RuleSet) : Edit Unit :=
  update id fun node => { node with backend }

def setStr (id : NodeId) (str : String) : Edit Unit :=
  update id fun node => { node with str }

def setChildren (id : NodeId) (children : List NodeId) : Edit Unit :=
  update id fun node => { node with children }

/-! ### Children -/

def names (id : NodeId) : Edit (List String) := do
  let project ← get
  return (← children id).map fun child => (project.nodes.getD child default).name

/-- The child at a position; a negative position counts from the end. -/
def child (id : NodeId) (index : Int) : Edit NodeId := do
  let node ← node id
  let size : Int := node.children.length
  if size ≤ index then throw (.childRange node.kind.name index)
  else
    let k := if index < 0 then index + size else index
    match if 0 ≤ k then node.children[k.toNat]? else none with
    | some found => return found
    | none => throw .outside

def hasChild (id : NodeId) (name : String) : Edit Bool :=
  return (← names id).contains name

def childNamed (id : NodeId) (name : String) : Edit NodeId := do
  match (← names id).idxOf? name with
  | some index => child id index
  | none => throw (.noChild name)

def isChildAt (id : NodeId) (index : Int) (other : NodeId) : Edit Bool :=
  return (← child id index) == other

end Edit

end ArmaGen
