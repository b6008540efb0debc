import ArmaGen.Project.Load
import ArmaGen.Syntax.Part

/-!
# Reading a fragment

A part of the grammar is read from a text of its own and built below a node of a small program.
This is how parts of the grammar are looked at one by one.
-/

namespace ArmaGen

inductive Place where
  | funcs
  | block
  | assign
  | condition
deriving Repr, DecidableEq, Inhabited

namespace Edit

def placeNode (funcs block : NodeId) : Place → Edit NodeId
  | .funcs => return funcs
  | .block => return block
  | .assign => make block { kind := .assign, cur? := some 0, code? := some "" }
  | .condition => make block { kind := .ifBranch, cur? := some 0, code? := some "" }

/-- Reads a part of the grammar at a position of a text below the node of a place, which has to
admit it if `checked`. -/
def fragment (part : Part) (checked : Bool) (place : Place) (text : String) (pos : Int)
    (arg? : Option Int) : Edit (Option Int × NodeId) := do
  load "unnamed" "0"
  let program ← child root 0
  let funcs ← child program 1
  let block ← child (← child funcs 0) 3
  update program fun node => { node with code? := some text }
  let parent ← placeNode funcs block place
  let kind ← kind parent
  if checked then (part.admits kind : Except Failure Unit)
  let result ← build parent text (part.parse kind pos arg?)
  return (result, if place == .funcs then funcs else block)

end Edit

end ArmaGen
