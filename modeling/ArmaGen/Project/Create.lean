import ArmaGen.Project.Store

/-!
# Changing a project by hand

Nodes can be made below others, taken out, and put below themselves. What a new node needs depends
on its kind.
-/

namespace ArmaGen

structure Given where
  name? : Option String := none
  value? : Option String := none
  cur? : Option Int := none
  code? : Option String := none
deriving Repr, DecidableEq, Inhabited

namespace Edit

/-- The value of a new node as it is kept: texts pass through templates, and decimal numbers do not
start with a point. -/
def keptValue (kind : Kind) (value : String) : Except Failure String :=
  if kind == .float then
    match value.toList with
    | [] => .error .outside
    | '.' :: _ => .ok ("0" ++ value)
    | _ => .ok value
  else if kind.holdsText then .ok (hidePercent value)
  else .ok value

/-- Makes a new node below another one. Some kinds cannot go without a name or a value. -/
def create (parent : NodeId) (kind : Kind) (given : Given) : Edit NodeId := do
  if kind.needsName && given.name?.isNone then throw .wrongSort
  if kind.needsValue && given.value?.isNone then throw .wrongSort
  let value ← (keptValue kind (given.value?.getD "") : Except Failure String)
  let name := given.name?.getD (if kind == .main then "main" else "")
  let extras := if kind == .error || kind == .warning then
    [(ExtraKey.cls, Extra.text (dropChars 10 name))]
    else []
  make parent
    { kind, name, value, cur? := given.cur?, code? := given.code?, extras
      line? := if kind == .funcs then some 1 else none }

def pop (id : NodeId) (index : Int) : Edit NodeId := do
  let below ← children id
  let k := if index < 0 then index + below.length else index
  match if 0 ≤ k then below[k.toNat]? else none with
  | some found =>
    setChildren id (below.eraseIdx k.toNat)
    return found
  | none => throw .outside

def appendSelf (id : NodeId) : Edit Unit := do
  setChildren id ((← children id) ++ [id])

/-- The bound of a slice of so many things: negative ones count from the end. -/
def sliceBound (size : Nat) (bound : Int) : Nat :=
  (min (if bound < 0 then bound + size else bound) size).toNat

def childrenFrom (id : NodeId) (start stop : Option Int) : Edit (List NodeId) := do
  let below ← children id
  let first := (start.map (sliceBound below.length)).getD 0
  let last := (stop.map (sliceBound below.length)).getD below.length
  return (below.take last).drop first

def setReference (id func : NodeId) : Edit Unit :=
  update id fun node => { node with reference? := some func }

end Edit

end ArmaGen
