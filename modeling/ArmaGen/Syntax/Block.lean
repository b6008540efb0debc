import ArmaGen.Syntax.Assignment
import ArmaGen.Syntax.Branch
import ArmaGen.Syntax.Comment

/-!
# Blocks of statements

A block is read statement by statement, up to the keyword that ends it or to the end of the text,
which is taken to be reached when fewer than three characters are left.
-/

namespace ArmaGen.Parse

inductive Step where
  | next (cur : Int)
  | stop (cur : Int)
deriving Repr, DecidableEq

def endingKeywords : List String :=
  ["case", "catch", "else", "elseif", "otherwise"]

def anyKeyword (cur : Int) : List String → Parse Bool
  | [] => return false
  | word :: words => do
    if ← keyword word cur then return true else anyKeyword cur words

def blockStatements : List (String × (BlockParser → Int → Parse Int)) :=
  [("parfor", parforStatement), ("for", forStatement), ("if", ifStatement),
   ("switch", switchStatement), ("try", tryStatement), ("while", whileStatement)]

/-- The statement that starts with a keyword at a position, if there is one. -/
def blockStatement? (block : BlockParser) (cur : Int) :
    List (String × (BlockParser → Int → Parse Int)) → Parse (Option Int)
  | [] => return none
  | (word, statement) :: rest => do
    if ← keyword word cur then return some (← statement block cur)
    else blockStatement? block cur rest

/-- An expression that stands alone; `early` says that its node is made before its end is known. -/
def statement (early : Bool) (cur : Int) : Parse Int := do
  let s ← source
  let head : Head := { kind := .statement, cur? := some cur }
  let stop ← elseLeaving (scan (s.expressionEnd cur)) (if early then [.leaf head] else [])
  progress cur "   Statement    " "codeblock.codeblock" cur (stop + 1)
  node { head with code? := some (s.slice cur (stop + 1)) } (expression cur (some stop) none)

/-- A statement that starts with a bracket: an assignment to several variables, or an expression. -/
def bracketStatement (cur : Int) : Parse Int := do
  let s ← source
  let eq ← s.skipBlanks ((← s.matrixEnd cur) + 1)
  if (← s.read eq) == '=' then
    if (← s.read (eq + 1)) != '=' then assignments cur eq else statement true cur
  else statement true cur

def stringStatement (cur : Int) : Parse Int := do
  let s ← source
  let stop ← s.stringEnd cur
  progress cur "   Statement    " "codeblock.codeblock" cur (stop + 1)
  node { kind := .statement, cur? := some cur, code? := some (s.slice cur (stop + 1)) }
    (stringLiteral cur)

/-- A statement that starts as an expression: an assignment if a sign of assignment follows. -/
def plainStatement (cur : Int) : Parse Int := do
  let s ← source
  let eq ← s.skipBlanks ((← s.expressionEnd cur) + 1)
  if (← s.read eq) == '=' then
    if (← s.read (← s.skipBlanks (eq + 1))) == '@' then lambdaAssignment cur eq
    else assignment cur eq
  else statement false cur

/-- Whether a command stands at a position: its word, and no more of a name. -/
def commandStarts (cur : Int) : Parse Bool := do
  let s ← source
  let apart := fun c => !isWord c
  if ← s.readsThen cur "hold" apart then return true else s.readsThen cur "grid" apart

/-- A piece of a block that starts with a word or another character of an expression. -/
def wordPiece (block : BlockParser) (cur : Int) : Parse Step := do
  let s ← source
  if ← anyKeyword cur endingKeywords then return .stop cur
  else if ← keyword "end" cur then return .stop (cur + 3)
  else if ← s.readsThen cur "function" (fun c => endsKeyword c || c == '[') then
    return .stop (cur - 1)
  else
    match ← blockStatement? block cur blockStatements with
    | some stop => return .next stop
    | none =>
      if ← commandStarts cur then
        match ← command cur with
        | some stop => return .next stop
        | none => fail .wrongSort
      else if startsExpression (← s.read cur) then return .next (← plainStatement cur)
      else return .next cur

def piece (block : BlockParser) (cur : Int) : Parse Step := do
  let s ← source
  let c ← s.read cur
  if oneOf " \t;" c then return .next cur
  else if c == '\n' then return if s.size - cur < 3 then .stop cur else .next cur
  else if s.reads cur "%%PARFOR" then return .next (← pragma cur)
  else if c == '%' then return .next (← comment cur)
  else if s.reads cur "___" then return .next (← verbatim cur)
  else if c == '[' then return .next (← bracketStatement cur)
  else if c == '\'' then return .next (← stringStatement cur)
  else wordPiece block cur

def blockOf (pieces : Int → Parse Int) (start : Int) : Parse Int := do
  let s ← source
  nodeThen { kind := .block, cur? := some start } (do
    note fun _ => column start ++ " Codeblock  " ++ " " ++ padRight 20 "codeblock.codeblock"
    pieces start)
    fun stop => s.slice start (stop + 1)

/-- The pieces of a block from `cur` on, in at most `n` steps; gives where the block ends. -/
def pieces : Nat → Int → Parse Int
  | 0, _ => fail .endless
  | n + 1, cur => do
    match ← piece (blockOf (pieces n)) cur with
    | .stop cur => return cur
    | .next cur =>
      if ((← source).size : Int) - (cur + 1) < 3 then return cur + 1 else pieces n (cur + 1)

def block (start : Int) : Parse Int := do
  blockOf (pieces (← source).steps) start

end ArmaGen.Parse
