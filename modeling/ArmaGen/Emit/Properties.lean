import ArmaGen.Emit.Emission
import ArmaGen.Project.Lookup

/-!
# Properties of nodes

The properties that a template may ask for: those of the node, and what is emitted for its
children, by position from the front and from the end.
-/

namespace ArmaGen

def Suggestion.property : Suggestion → Property
  | .type t => .text t.name
  | .ranks shape element => .pair shape element
  | .types items => .texts (items.map Datatype.name)

def Extra.property : Extra → Property
  | .count n => .number n
  | .text t => .text t
  | .mark => .mark

/-- What is emitted for children, by position from the front and from the end. -/
def childProperties (count : Nat) (index : Nat) : List String → Properties
  | [] => []
  | text :: rest =>
    (toString index, .text text) :: ("-" ++ toString (count - index), .text text) ::
      childProperties count (index + 1) rest

def Node.ownProperties (node : Node) (line cur : Int) (code : String) : Properties :=
  [("type", .text node.type.name), ("suggest", node.suggestion.property),
   ("value", .text node.value), ("str", .text node.str), ("name", .text node.name),
   ("pointer", .number node.pointer), ("backend", .text node.backend.name),
   ("line", .number line), ("cur", .number cur), ("code", .text code), ("ret", .text node.ret),
   ("class", .text node.kind.name)]

/-- The properties of a node, given its line, position and text, and what is emitted for its
children. -/
def Node.properties (node : Node) (line cur : Int) (code : String) (children : List String) :
    Properties :=
  node.ownProperties line cur code ++
  node.extras.map (fun (key, extra) => (key.name, extra.property)) ++
  childProperties children.length 0 children

namespace Edit

def childTexts (id : NodeId) : Edit (List String) := do
  (← children id).mapM str

def shownLine (id : NodeId) : Edit Int := do
  match (← node id).line? with
  | some line => return line
  | none => line id

def properties (id : NodeId) : Edit Properties := do
  let line ← shownLine id
  let cur ← cur id
  let code ← code id
  return (← node id).properties line cur code (← childTexts id)

end Edit

end ArmaGen
