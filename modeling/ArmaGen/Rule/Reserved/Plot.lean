import ArmaGen.Emit.Auxiliary
import ArmaGen.Emit.Log

/-!
# Rules for plotting

Plotting goes through a plotter that the function around a call declares.
-/

namespace ArmaGen.Rule

open Edit

def plotCall (name : String) : Emit (Option Emission) :=
  Emit.call ("_plot." ++ name)

def plot (name : String) : Rule := fun id => do
  Emit.plotting id
  plotCall name

def textArgument? (id : NodeId) : Edit (Option String) := do
  match ← children id with
  | [] => return none
  | first :: _ =>
    let node ← node first
    return if node.kind == .string then some node.value else none

def requireSwitch (id : NodeId) : Edit Unit :=
  error id "argument must either be \"on\" or \"off\""

def hold : Rule := fun id => do
  Emit.plotting id
  match ← textArgument? id with
  | some "on" => Emit.text "_plot.hold(1)"
  | some "off" => Emit.text "_plot.hold(0)"
  | some _ =>
    requireSwitch id
    plotCall "hold"
  | none =>
    error id "hold toggle not supported"
    plotCall "hold"

def grid : Rule := fun id => do
  Emit.plotting id
  match ← textArgument? id with
  | some "on" => Emit.text "_plot.grid(\x7b\x7b\"b\", \"on\"\x7d\x7d)"
  | some "off" => Emit.text "_plot.grid(\x7b\x7b\"b\", \"off\"\x7d\x7d)"
  | some _ =>
    requireSwitch id
    plotCall "grid"
  | none => plotCall "grid"

def elementTexts (id : NodeId) (n : Nat) : Edit (List String) := do
  let name ← name id
  let element ← elementOf id
  return (List.range n).map fun i =>
    let text := name ++ "(" ++ toString i ++ ")"
    if element == some .float || element == some .double then text
    else "static_cast<double>(" ++ text ++ ")"

/-- The bounds that an argument gives: so many elements of a matrix or of an array. -/
def bounds? (n : Nat) (id : NodeId) : Edit (Option (List String)) := do
  if (← kind id) == .matrix then
    let row ← childTexts (← child id 0)
    return if row.length == n then some row else none
  else if ← isNumeric id then
    if 0 < (← rankOf id) then return some (← elementTexts id n) else return none
  else return none

def axisBounds (name : String) (n : Nat) : Rule := fun id => do
  Emit.plotting id
  let bounds ← match ← children id with
    | [only] => (bounds? n only : Edit (Option (List String)))
    | _ => pure none
  match bounds with
  | some texts => Emit.text ("_plot." ++ name ++ "(" ++ joinWith ", " texts ++ ")")
  | none =>
    error id "argument array type"
    plotCall name

def plotRule? : String → Option Rule
  | "hold" => some hold
  | "grid" => some grid
  | "xlim" => some (axisBounds "xlim" 2)
  | "ylim" => some (axisBounds "ylim" 2)
  | "caxis" => some (axisBounds "caxis" 2)
  | "axis" => some (axisBounds "axis" 4)
  | "_splot" => some fun _ => Emit.text "_plot.show()"
  | name =>
    if ["figure", "clf", "cla", "show", "xlabel", "ylabel", "title", "plot", "imshow", "imagesc",
        "wigb", "colorbar", "subplot", "colormap"].contains name then some (plot name)
    else none

end ArmaGen.Rule
