import ArmaGen.Project.Store

/-!
# The nodes below a node, in order

`Project.preorder` lists a node before its children, `Project.postorder` after them, and
`Project.levels` level by level, each forwards or backwards.
-/

namespace ArmaGen.Project

def node (project : Project) (id : NodeId) : Node :=
  project.nodes.getD id default

def childrenIn (project : Project) (backwards : Bool) (id : NodeId) : List NodeId :=
  if backwards then (project.node id).children.reverse else (project.node id).children

def preorderSteps (project : Project) (backwards : Bool) : Nat → NodeId → List NodeId
  | 0, _ => []
  | n + 1, id =>
    id :: (project.childrenIn backwards id).flatMap (preorderSteps project backwards n)

def preorder (project : Project) (backwards : Bool) (id : NodeId) : List NodeId :=
  project.preorderSteps backwards (project.nodes.size + 1) id

def postorderSteps (project : Project) (backwards : Bool) : Nat → NodeId → List NodeId
  | 0, _ => []
  | n + 1, id =>
    (project.childrenIn backwards id).flatMap (postorderSteps project backwards n) ++ [id]

def postorder (project : Project) (backwards : Bool) (id : NodeId) : List NodeId :=
  project.postorderSteps backwards (project.nodes.size + 1) id

/-- The list of nodes that is gone over grows: each of them puts its children at its end. -/
def levelsSteps (project : Project) (backwards : Bool) : Nat → List NodeId → List NodeId
  | 0, _ => []
  | _, [] => []
  | n + 1, id :: rest =>
    id :: levelsSteps project backwards n (rest ++ project.childrenIn backwards id)

/-- The nodes by level, in as many steps as there are nodes. -/
def levels (project : Project) (backwards : Bool) (id : NodeId) : List NodeId :=
  project.levelsSteps backwards (project.preorder backwards id).length [id]

/-- A node and the nodes below it: by level or in depth, with children forwards or backwards, and
from the top or from the bottom. -/
def flatten (project : Project) (byLevel backwards fromBottom : Bool) (id : NodeId) :
    List NodeId :=
  match byLevel, fromBottom with
  | true, true => (project.levels (!backwards) id).reverse
  | true, false => project.levels backwards id
  | false, true => project.postorder backwards id
  | false, false => project.preorder backwards id

end ArmaGen.Project

namespace ArmaGen.Edit

def nodesBelow (id : NodeId) : Edit (List NodeId) :=
  return (← get).preorder false id

def nodesBottomUp (id : NodeId) : Edit (List NodeId) :=
  return (← get).postorder false id

end ArmaGen.Edit
