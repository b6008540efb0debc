import ArmaGen.Syntax.Kind
import ArmaGen.Text.Words

/-!
# Syntax trees

The grammar turns source text into a forest of `Syntax`. Where position or text of a node are
absent, those of the node above count. Among the items below a node stand requests to declare it: a
variable is declared once its indices are read.
-/

namespace ArmaGen

structure Head where
  kind : Kind
  name : String := ""
  value : String := ""
  pointer : Int := 0
  cur? : Option Int := none
  code? : Option String := none
deriving Repr, DecidableEq, Inhabited

inductive Syntax where
  | node (head : Head) (items : List Syntax)
  | declare
deriving Repr, Inhabited

namespace Syntax

def isNode : Syntax → Bool
  | .node _ _ => true
  | .declare => false

def nodes (items : List Syntax) : List Syntax :=
  items.filter isNode

def name : Syntax → String
  | .node head _ => head.name
  | .declare => ""

def leaf (head : Head) : Syntax :=
  .node head []

def declared : Syntax → Syntax
  | .node head items => .node head (items ++ [.declare])
  | .declare => .declare

def declareLast (items : List Syntax) : List Syntax :=
  match items.reverse with
  | [] => []
  | item :: rest => (item.declared :: rest).reverse

end Syntax

/-- The value as it is kept: a decimal number starts with a digit, and texts hide their percent
signs. -/
def Kind.keptValue (kind : Kind) (value : String) : String :=
  if kind.holdsText then hidePercent value
  else if kind == .float && value.toList.head? == some '.' then "0" ++ value
  else value

end ArmaGen
