import ArmaGen.Syntax.Kind

/-!
# Infix operators

The infix operators in the order in which expressions are split at them, from the one that binds
least to the one that binds most. Each operator is a level of its own.
-/

namespace ArmaGen

inductive Operator where
  | lor
  | land
  | bor
  | band
  | ne
  | eq
  | ge
  | gt
  | le
  | lt
  | colon
  | plus
  | minus
  | elmul
  | mul
  | elementDivision
  | matrixDivision
  | leftElementDivision
  | leftMatrixDivision
  | elexp
  | exp
deriving Repr, DecidableEq, Inhabited

namespace Operator

def inOrder : List Operator := [
  .lor, .land, .bor, .band, .ne, .eq, .ge, .gt, .le, .lt, .colon, .plus, .minus, .elmul, .mul,
  .elementDivision, .matrixDivision, .leftElementDivision, .leftMatrixDivision, .elexp, .exp
]

def symbol : Operator → String
  | .lor => "||"
  | .land => "&&"
  | .bor => "|"
  | .band => "&"
  | .ne => "~="
  | .eq => "=="
  | .ge => ">="
  | .gt => ">"
  | .le => "<="
  | .lt => "<"
  | .colon => ":"
  | .plus => "+"
  | .minus => "-"
  | .elmul => ".*"
  | .mul => "*"
  | .elementDivision => "./"
  | .matrixDivision => "/"
  | .leftElementDivision => ".\\"
  | .leftMatrixDivision => "\\"
  | .elexp => ".^"
  | .exp => "^"

def kind : Operator → Kind
  | .lor => .lor
  | .land => .land
  | .bor => .bor
  | .band => .band
  | .ne => .ne
  | .eq => .eq
  | .ge => .ge
  | .gt => .gt
  | .le => .le
  | .lt => .lt
  | .colon => .colon
  | .plus => .plus
  | .minus => .minus
  | .elmul => .elmul
  | .mul => .mul
  | .elementDivision => .elementDivision
  | .matrixDivision => .matrixDivision
  | .leftElementDivision => .leftElementDivision
  | .leftMatrixDivision => .leftMatrixDivision
  | .elexp => .elexp
  | .exp => .exp

def isSign : Operator → Bool
  | .plus | .minus => true
  | _ => false

/-- The operators that bind more than the given one; all of them if none is given. -/
def after : Option Operator → List Operator
  | none => inOrder
  | some op => (inOrder.dropWhile (· ≠ op)).drop 1

end Operator

end ArmaGen
