import ArmaGen.Syntax.Operator
import ArmaGen.Syntax.Parse

/-!
# Numbers, strings and bracketed lists

Literals with expressions inside are given the parser for expressions: it takes the position of the
expression, its last position if that is known, and the operator below which it is read, if any.
-/

namespace ArmaGen

abbrev ExpressionParser := Int → Option Int → Option Operator → Parse Int

namespace Parse

/-! ### Numbers -/

/-- Whether a number starts at a position: with a digit, or a dot and a digit. -/
def numberStarts (k : Int) : Parse Bool := do
  let s ← source
  let c ← s.read k
  if isDigit c then return true
  else if c == '.' then s.holds isDigit (k + 1)
  else return false

def numberLeaf (kind : Kind) (label : String) (value : String) (start stop : Int) :
    Parse Unit := do
  let s ← source
  leaf { kind, value := kind.keptValue value, cur? := some start,
         code? := some (s.slice start stop) }
  progress start label "misc.number" start stop

/-- Makes an imaginary number if its letter stands at `k`, and a plain one otherwise; gives the
last position. -/
def numberOf (kind : Kind) (label value : String) (start k : Int) : Parse Int := do
  if oneOf "ij" (← (← source).read k) then
    numberLeaf .imag "     Imag       " value start k
    return k
  else
    numberLeaf kind label value start k
    return k - 1

/-- A number whose digits end before `k`: an exponent, and the letter of an imaginary number. -/
def numberFrom (start : Int) (decimal : Bool) (k : Int) : Parse Int := do
  let s ← source
  if oneOf "eEdD" (← s.read k) then
    let signed ← s.holds (oneOf "+-") (k + 1)
    let stop ← s.skip isDigit (if signed then k + 2 else k + 1)
    numberOf .float "     Float      " (s.slice start k ++ "e" ++ s.slice (k + 1) stop) start stop
  else if decimal then numberOf .float "     Float      " (s.slice start k) start k
  else numberOf .int "     Int        " (s.slice start k) start k

/-- A number: digits, decimals, an exponent and the letter of an imaginary number. A dot belongs to
it unless it starts an operator or a continuation. -/
def number (start : Int) : Parse Int := do
  let s ← source
  if !(← numberStarts start) then expected start "number"
  else
    let whole ← s.skip isDigit start
    let decimal ←
      if (← s.read whole) == '.' && s.slice (whole + 1) (whole + 3) != ".." then
        pure !(← s.holds (oneOf "*/") (whole + 1))
      else pure false
    let k ← if decimal then s.skip isDigit (whole + 1) else pure whole
    numberFrom start decimal k

/-! ### Strings -/

def stringLiteral (cur : Int) : Parse Int := do
  let s ← source
  let stop ← s.stringEnd cur
  leaf { kind := .string, value := Kind.keptValue .string (s.slice (cur + 1) stop),
         cur? := some cur, code? := some (s.slice cur (stop + 1)) }
  progress cur "     String " "misc.string" cur (stop + 1)
  return stop

/-! ### Lists -/

/-- The expressions of a row; gives the last position of the last one, or `stop` if there is
none. -/
def rowItems (expression : ExpressionParser) : Int → List (Int × Int) → Parse Int
  | stop, [] => return stop
  | _, (start, stop) :: rest => do
    let _ ← expression start (some stop) none
    rowItems expression stop rest

def rowsItems (expression : ExpressionParser) : Int → Rows → Parse Int
  | stop, [] => return stop
  | stop, row :: rows => do rowsItems expression (← rowItems expression stop row) rows

/-- The indices or arguments in brackets; gives the closing bracket. -/
def argumentList (expression : ExpressionParser) (cur : Int) : Parse Int := do
  let s ← source
  if !oneOf "(\x7b" (← s.read cur) then expected cur "start of list character"
  else
    let last ← rowsItems expression cur (← s.commaItems cur)
    let stop ← s.skipBlanks (last + 1)
    if oneOf ")\x7d" (← s.read stop) then return stop
    else expected cur "end of list character"

/-- The rows of a matrix, each below a node of its own. The text of an empty row starts at the
matrix. -/
def matrixRows (expression : ExpressionParser) (cur : Int) : Int → Rows → Parse Unit
  | _, [] => return ()
  | stop, row :: rows => do
    let s ← source
    let (first, last) := match row, row.getLast? with
      | (first, _) :: _, some (_, last) => (first, last)
      | _, _ => (cur, stop)
    node { kind := .vector, cur? := some first, code? := some (s.slice first (last + 1)) } do
      progress first "     Vector     " "misc.matrix" first (last + 1)
      let _ ← rowItems expression last row
    matrixRows expression cur last rows

def matrixLiteral (expression : ExpressionParser) (cur : Int) : Parse Int := do
  let s ← source
  if (← s.read cur) != '[' then expected cur "bracket start"
  else
    let stop ← s.matrixEnd cur
    progress cur "     Matrix     " "misc.matrix" cur (stop + 1)
    let rows ← s.items cur
    node { kind := .matrix, cur? := some cur, code? := some (s.slice cur (stop + 1)) } do
      matrixRows expression cur stop rows
      return stop

/-- A cell in curly brackets; gives the closing bracket. -/
def cellLiteral (expression : ExpressionParser) (cur : Int) : Parse Int := do
  let s ← source
  if (← s.read cur) != '\x7b' then expected cur "curly braces"
  else
    let stop ← s.cellEnd cur
    progress cur "     Cell       " "misc.cell" cur (stop + 1)
    let rows ← s.items cur
    node { kind := .cell, cur? := some cur, code? := some (s.slice cur (stop + 1)) } do
      let _ ← rowsItems expression stop rows
      return stop

end Parse

end ArmaGen
