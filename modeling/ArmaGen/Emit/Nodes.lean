import ArmaGen.Infer.Configure
import ArmaGen.Project.Summary
import ArmaGen.Rule.Select

/-!
# Emitting nodes

A node is emitted by the rule that the user gives for its kind and name, else by the one for its
kind, else by the rule of its set. What the rule gives is filled in with the properties of the node.
Trees are emitted from below. While a rule runs, it may emit further nodes; messages are cleared
when the outermost of these runs starts and emitted when it ends.
-/

namespace ArmaGen

namespace UserRule

def emission : UserRule → Emission
  | .template text => .text text
  | .pieces texts => .pieces texts

/-- The rule as a literal: pieces stand in square brackets. -/
def literal : UserRule → String
  | .template text => quoted text
  | .pieces texts => "[" ++ Emission.quotedItems texts ++ "]"

end UserRule

namespace Edit

/-- The rule of the user for a node: the one for its kind and name, else the one for its kind. -/
def userRule? (id : NodeId) : Edit (Option UserRule) := do
  let node ← node id
  let rules := (← get).options.rules
  return (rules.lookup (node.kind.name ++ "_" ++ node.name)).or (rules.lookup node.kind.name)

def ruleEmission (emitter : Emitter) (id : NodeId) : Edit Emission := do
  let node ← node id
  if !node.backend.hasRules then throw .missingKey
  match node.backend.rule? node.kind node.name with
  | some rule =>
    match ← rule id |>.run emitter with
    | some emission => return emission
    | none => throw (.noText node.kind.name (← backend id).name)
  | none =>
    display (← summary (← program id))
    throw (.noRule node.kind.name node.backend.name)

/-- Fills in a template with the properties of a node, or reports both. -/
def fillIn (id : NodeId) (template : String) : Edit String := do
  try
    let properties ← properties id
    (Template.fill properties template : Except Failure String)
  catch _ =>
    let node ← node id
    let line ← line id
    let code ← code id
    throw (.template
      ("interpolation in " ++ node.backend.name ++ "." ++ node.kind.name ++
        " is misbehaving\n'" ++ template ++ "'\n")
      ""
      ("\nCrash on line " ++ toString line ++ ":\n" ++ code))

/-- Whether the lines of source text can be repeated before what is emitted for nodes of a kind. -/
def isEchoed : Kind → Bool
  | .assign | .assigns | .statement => true
  | _ => false

/-- What the rule for a node gives, also as a literal: the rule of the user, else that of its
set. -/
def emissionOf (emitter : Emitter) (id : NodeId) : Edit (Emission × String) := do
  match ← userRule? id with
  | some rule => return (rule.emission, rule.literal)
  | none =>
    let emission ← ruleEmission emitter id
    return (emission, emission.literal)

def emitNode (emitter : Emitter) (id : NodeId) : Edit Unit := do
  let (emission, literal) ← emissionOf emitter id
  update id fun node => { node with ret := literal }
  let template ← (emission.template (← count id) : Except Failure String)
  let text ← fillIn id template
  if isEchoed (← kind id) && (← get).options.echo then
    setStr id (hidePercent ("// " ++ (← code id) ++ "\n" ++ text))
  else setStr id text

def emitBelow (one : NodeId → Edit Unit) (id : NodeId) : Edit Unit := do
  if (← get).depth == 0 then setChildren (← logOf id) []
  modify fun project => { project with depth := project.depth + 1 }
  (← nodesBottomUp id).forM one
  modify fun project => { project with depth := project.depth - 1 }
  if (← get).depth == 0 then
    (← nodesBottomUp (← logOf id)).forM one

/-- Emits a node alone, or with all below it; at most `n` runs are nested. -/
def emitSteps : Nat → (below : Bool) → NodeId → Edit Unit
  | 0, _, _ => throw .endless
  | n + 1, below, id =>
    let one := emitNode ⟨emitSteps n false, emitSteps n true⟩
    if below then emitBelow one id else one id

def emitOne (id : NodeId) : Edit Unit := do
  ensureConfigured
  emitSteps ((← height) + 20) false id

/-- Emits a node and all below it; of a project, all programs. -/
def emit (id : NodeId) : Edit Unit := do
  ensureConfigured
  let steps := (← height) + 20
  if (← kind id) == .project then
    (← children id).forM (emitSteps steps true)
  else emitSteps steps true id

def emitCounted (id : NodeId) : Edit Unit := do
  ensureConfigured
  if (← kind id) != .project then
    if (← get).depth == 0 then setChildren (← logOf id) []
    display ("iterating " ++ toString (← nodesBelow id).length ++ " nodes")
  emit id

def emitter : Emitter :=
  ⟨emitOne, emit⟩

end Edit

end ArmaGen
