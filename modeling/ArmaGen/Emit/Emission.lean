import ArmaGen.Project.Store
import ArmaGen.Text.Template

/-!
# What rules give

A rule gives a template, or the pieces of text around and between what is emitted for the children
of a node. A rule may emit other nodes on its way, and change the project.
-/

namespace ArmaGen

inductive Emission where
  | text (template : String)
  | pieces (texts : List String)
deriving Repr, DecidableEq, Inhabited

structure Emitter where
  one : NodeId → Edit Unit
  tree : NodeId → Edit Unit

abbrev Emit := ReaderT Emitter Edit

/-- What is given for a kind of nodes; some rules give nothing in some cases. -/
abbrev Rule := NodeId → Emit (Option Emission)

namespace Emission

def around (before between after : String) : Emission :=
  .pieces [before, between, after]

def call (name : String) : Emission :=
  around (name ++ "(") ", " ")"

def joined (operator : String) : Emission :=
  around "" operator ""

def quotedItems (texts : List String) : String :=
  ", ".intercalate (texts.map quoted)

/-- The emission as a literal: pieces stand in parentheses, and a single one has a comma after
it. -/
def literal : Emission → String
  | .text template => quoted template
  | .pieces [only] => "(" ++ quoted only ++ ",)"
  | .pieces texts => "(" ++ quotedItems texts ++ ")"

/-- The template for so many children, with pieces before, between and after them. The last piece is
repeated where pieces are missing. -/
def assemble (first : String) (between : List String) (last : String) : Nat → String
  | 0 => first ++ last
  | 1 => first ++ Template.child 0 ++ last
  | n =>
    let filler := List.replicate (n - 1 - between.length) (between.getLastD "")
    let after := between ++ filler ++ [last]
    first ++ String.join ((List.range n).map fun i => Template.child i ++ after.getD i "")

/-- The template for a node with so many children. Two pieces stand before and after them, further
ones between. -/
def template (emission : Emission) (n : Nat) : Except Failure String :=
  match emission with
  | .text template => .ok template
  | .pieces [] | .pieces [_] => .error .outside
  | .pieces [first, last] => .ok (assemble first [""] last n)
  | .pieces (first :: rest) => .ok (assemble first rest.dropLast (rest.getLastD "") n)

end Emission

namespace Emit

def text (template : String) : Emit (Option Emission) :=
  return some (.text template)

def around (before between after : String) : Emit (Option Emission) :=
  return some (.around before between after)

def call (name : String) : Emit (Option Emission) :=
  return some (.call name)

def one (id : NodeId) : Emit Unit := do
  (← read).one id

def tree (id : NodeId) : Emit Unit := do
  (← read).tree id

end Emit

end ArmaGen
