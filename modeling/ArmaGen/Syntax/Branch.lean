import ArmaGen.Syntax.Expression

/-!
# Branches, loops and try

Parsers for the statements that hold blocks. They are given the parser for blocks, which takes the
position where the block starts and gives the position after the keyword that ends it.
-/

namespace ArmaGen

abbrev BlockParser := Int → Parse Int

namespace Parse

def separates (c : Char) : Bool :=
  oneOf " \t\n,;" c

def keyword (word : String) (k : Int) : Parse Bool := do
  (← source).readsThen k word endsKeyword

/-! ### Try -/

def tryStatement (block : BlockParser) (cur : Int) : Parse Int := do
  let s ← source
  if !(← keyword "try" cur) then expected cur "start of try-block"
  else
    progress cur "   Try          " "branches.trybranch" cur (cur + 3)
    nodeThen { kind := .tryBlock, cur? := some cur } (do
      let mid ← nodeThen { kind := .tryBranch } (do block (← s.skip separates (cur + 3)))
        fun stop => s.slice cur stop
      if !(← keyword "catch" mid) then expected mid "start of catch-block"
      else
        nodeThen { kind := .catchBranch, cur? := some mid }
          (do block (← s.skip separates (mid + 5))) fun stop => s.slice mid stop)
      fun stop => s.slice cur stop

/-! ### Switch -/

def cases (block : BlockParser) : Nat → Int → Parse Int
  | 0, _ => fail .endless
  | n + 1, cur => do
    let s ← source
    if ← s.readsThen cur "case" (oneOf " \t(") then
      let k ← s.skipBlanks (cur + 4)
      let stop ← s.expressionEnd k
      progress cur "   Case         " "branches.switch" cur (stop + 1)
      let next ← node { kind := .caseBranch, cur? := some cur } do
        let last ← expression k (some stop) none
        block (← s.skip separates (last + 1))
      cases block n next
    else return cur

def switchStatement (block : BlockParser) (cur : Int) : Parse Int := do
  let s ← source
  if !(← s.readsThen cur "switch" (oneOf " \t(")) then expected cur "start of switch branch"
  else
    let k ← s.skipBlanks (cur + 6)
    let stop ← s.expressionEnd k
    progress cur "   Switch       " "branches.switch" cur (stop + 1)
    node { kind := .switch, cur? := some cur } do
      let _ ← expression k (some stop) none
      let k ← cases block s.steps (← s.skip separates (stop + 1))
      if ← s.readsThen k "otherwise" (oneOf " \t(,;\n") then
        progress k "   Otherwise    " "branches.switch" k (k + 10)
        node { kind := .otherwise, cur? := some k } do block (← s.skip separates (k + 9))
      else return k

/-! ### Loops -/

def condition (k : Int) : Parse Int := do
  let s ← source
  expression (← if (← s.read k) == '(' then s.skipBlanks (k + 1) else pure k) none none

def whileStatement (block : BlockParser) (cur : Int) : Parse Int := do
  let s ← source
  if !s.reads cur "while" && !(← s.holds endsKeyword (cur + 5)) then
    expected cur "start of while-loop"
  else
    let k ← s.skipBlanks (cur + 5)
    let stop ← s.expressionEnd k
    progress cur "   While        " "branches.whileloop" cur (stop + 1)
    nodeThen { kind := .whileLoop, cur? := some cur } (do
      let last ← condition k
      block (← s.skipBlanks (last + 2)))
      fun stop => s.slice cur (stop + 1)

/-- The variable of a loop, which is declared; gives the position to go on from. -/
def loopVariable (kind : Kind) (cur : Int) : Parse Int := do
  match ← attempt (declaring (reference expression cur)) with
  | (made, .error failure) =>
    emit made
    fail failure
  | (made, .ok stop) =>
    emit made
    if made.isEmpty then fail (.childRange kind.name 0) else return stop

def loopOver (block : BlockParser) (kind : Kind) (label place : String) (length : Nat)
    (cur : Int) : Parse Int := do
  let s ← source
  note fun _ => column cur ++ label ++ " " ++
    quoted (s.slice cur ((s.find? "\n" cur).getD (-1))) ++ " " ++ place
  nodeThen { kind, cur? := some cur } (do
    let stop ← loopVariable kind (← s.skip (oneOf "( \t") (cur + length))
    let k ← s.skipBlanks (stop + 1)
    if (← s.read k) != '=' then expected k "for-loop assignment (=)"
    else
      let stop ← expression (← s.skipBlanks (k + 1)) none none
      let k ← s.skip (oneOf ") \t") (stop + 1)
      let k := if (← s.read k) == ',' then k + 1 else k
      block (← s.skip (oneOf " \t\n;") k))
    fun stop => s.slice cur stop

def forStatement (block : BlockParser) (cur : Int) : Parse Int := do
  if !(← source).reads cur "for" then expected cur "for loop start"
  else loopOver block .forLoop "   For          " "branches.forloop" 3 cur

def parforStatement (block : BlockParser) (cur : Int) : Parse Int := do
  if !(← source).reads cur "parfor" then expected cur "parfor loop start"
  else loopOver block .parfor "   Parfor          " "branches.parforloop" 6 cur

/-! ### If -/

/-- The further conditions of a branch; gives where its last part starts, and the position after it.
-/
def elifs (block : BlockParser) : Nat → Int → Int → Parse (Int × Int)
  | 0, _, _ => fail .endless
  | n + 1, start, cur => do
    let s ← source
    if ← keyword "elseif" cur then
      let k ← s.skipBlanks (cur + 6)
      let stop ← s.expressionEnd k
      progress cur "   Else if      " "branches.ifbranch" cur (stop + 1)
      let next ← nodeThen { kind := .elif, cur? := some cur } (do
        let _ ← condition k
        block (stop + 1))
        fun stop => s.slice cur stop
      elifs block n cur next
    else return (start, cur)

/-- The last part of a branch, if any; gives where the last part starts, and the position after it.
-/
def elsePart (block : BlockParser) (start cur : Int) : Parse (Int × Int) := do
  let s ← source
  if ← keyword "else" cur then
    progress cur "   Else         " "branches.ifbranch" cur (cur + 5)
    let stop ← nodeThen { kind := .elseBranch, cur? := some cur } (block (cur + 4))
      fun stop => s.slice cur (stop + 1)
    return (cur, stop)
  else return (start, cur)

def ifStatement (block : BlockParser) (start : Int) : Parse Int := do
  let s ← source
  if !(← keyword "if" start) then expected start "if branch start"
  else
    let head : Head := { kind := .branch, cur? := some start }
    wrap head (do
      let k ← s.skipBlanks (start + 2)
      if !startsExpression (← s.read k) then expected k "expression start"
      else
        let stop ← s.expressionEnd k
        progress start "   If           " "branches.ifbranch" start (stop + 1)
        let next ← nodeThen { kind := .ifBranch, cur? := some k } (do
          let _ ← condition k
          block (stop + 1))
          fun stop => s.slice start stop
        let (start, cur) ← elifs block s.steps start next
        elsePart block start cur) fun _ (start, stop) =>
      ({ head with code? := some (s.slice start (stop + 1)) }, .ok stop)

end Parse

end ArmaGen
