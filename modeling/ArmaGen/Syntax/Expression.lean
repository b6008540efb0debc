import ArmaGen.Syntax.Variable

/-!
# Expressions

An expression is split at the first operator, in the order of `Operator.inOrder`, that stands in it
outside of brackets and strings. All operands of that operator become children of one node, and each
is read with the operators that bind more. What no operator splits has signs before it, a quote
after it, or is a primary.
-/

namespace ArmaGen

namespace Source

structure Split where
  start : Int
  done : List (Int × Int)
  last : Int

/-- Whether the sign at `k` joins no operands: none ends before it, or it belongs to an exponent. -/
def isSignAt (s : Source) (last k : Int) : Scan Bool := do
  let c ← s.read last
  if !(isAlnum c || oneOf ")]\x7d" c) then return true
  else if !oneOf "dDeE" (← s.read (k - 1)) then return false
  else
    let d ← s.read (k - 2)
    if !(isDigit d || d == '.') then return false
    else s.holds isDigit (k + 1)

inductive Piece where
  /-- Something of the current operand, which ends at the first position and is passed at the
  second. -/
  | within (last k : Int)
  /-- The operator; the next operand starts after the given position. -/
  | between (k : Int)
  | sign (k : Int)

def pieceAt (s : Source) (op : Operator) (last k : Int) : Scan Piece := do
  let c ← s.read k
  if c == '(' then let e ← s.parenEnd k; return .within e e
  else if c == '[' then let e ← s.matrixEnd k; return .within e e
  else if c == '\x7b' then let e ← s.cellEnd k; return .within e e
  else if c == '\'' then
    if ← s.opensString k then let e ← s.stringEnd k; return .within e e
    else return .within k k
  else if s.reads k op.symbol then
    if ← (if op.isSign then s.isSignAt last k else pure false) then return .sign (k + 1)
    else
      let k ← s.through isBlank (k + op.symbol.length - 1)
      if ← (if op == .colon then s.holds (oneOf ",;\n)]\x7d") (k + 1) else pure false) then
        return .sign (k + 1)
      else return .between k
  else if isWord c then return .within k k
  else return .within last k

/-- Splits the expression that ends at `stop`, from `k` on. -/
def splitSteps (s : Source) (op : Operator) (stop : Int) : Nat → Split → Int →
    Scan (List (Int × Int))
  | 0, _, _ => .error .endless
  | n + 1, split, k => do
    match ← s.pieceAt op split.last k with
    | .sign k => splitSteps s op stop n split k
    | .within last k =>
      let split := { split with last }
      if k + 1 ≥ stop then return ((split.start, stop) :: split.done).reverse
      else splitSteps s op stop n split (k + 1)
    | .between k =>
      let split := { split with
        start := k + 1, done := (split.start, split.last) :: split.done }
      if k + 1 ≥ stop then return ((split.start, stop) :: split.done).reverse
      else splitSteps s op stop n split (k + 1)

def operands (s : Source) (op : Operator) (start stop : Int) : Scan (List (Int × Int)) :=
  s.splitSteps op stop s.steps ⟨start, [], start⟩ start

def firstSplit (s : Source) (start stop : Int) : List Operator →
    Scan (Option (Operator × List (Int × Int)))
  | [] => return none
  | op :: rest => do
    if !occursIn op.symbol.toList (s.span start (stop + 1)) then firstSplit s start stop rest
    else
      let spans ← s.operands op start stop
      if spans.length > 1 then return some (op, spans) else firstSplit s start stop rest

end Source

namespace Parse

def spanNode {α : Type} (kind : Kind) (start stop : Int) (body : Parse α) : Parse α := do
  node { kind, cur? := some start, code? := some ((← source).slice start (stop + 1)) } body

/-- A keyword that stands for itself, if it is at a position and ends there. -/
def keywordAt (k : Int) (word : String) : Parse Bool := do
  (← source).readsThen k word (oneOf " ,;\n")

/-- An expression in `[start, stop]` without operators, signs or quote. -/
def primary (expression : ExpressionParser) (whole start stop : Int) : Parse Int := do
  let s ← source
  let c ← s.read start
  if c == '(' then
    if (← s.read stop) != ')' then expected stop "parenthesis end"
    else
      spanNode .paren start stop do
        let first ← s.skipBlanks (start + 1)
        let last ← s.backBlanks (stop - 1)
        expression first (some last) none
  else if s.reads start "end" then
    spanNode .endIndex start (start + 2) (return whole)
  else if ← keywordAt start "return" then
    spanNode .returnCall start (start + 5) (return whole)
  else if ← keywordAt start "break" then
    spanNode .breakLoop start (start + 4) (return whole)
  else if c == '\'' then
    if (← s.read stop) != '\'' then expected stop "string end"
    else if (s.span start stop).contains '\n' then
      expected stop "non line-feed characters in string"
    else
      leaf { kind := .string, value := Kind.keptValue .string (s.slice (start + 1) stop),
             cur? := some start, code? := some (s.slice start (stop + 1)) }
      return whole
  else if ← numberStarts start then
    let _ ← number start
    return whole
  else if c == '[' then
    let _ ← matrixLiteral expression start
    return whole
  else if c == '\x7b' then
    let _ ← cellLiteral expression start
    return whole
  else if !(isLetter c || c == '@') then expected start "variable name"
  else
    let _ ← reference expression start
    return whole

def postfixed (expression : ExpressionParser) (stop start : Int) : Parse Int := do
  let s ← source
  if (← s.read stop) != '\'' then primary expression stop start stop
  else if (← s.read start) == '\'' then primary expression stop start stop
  else if (← s.read (stop - 1)) == '.' then
    spanNode .transpose start stop do
      primary expression stop start (← s.backBlanks (stop - 2))
  else
    spanNode .ctranspose start stop do
      primary expression stop start (← s.backBlanks (stop - 1))

def signed (expression : ExpressionParser) (stop : Int) : Nat → Int → Parse Int
  | 0, _ => fail .endless
  | n + 1, start => do
    let s ← source
    let c ← s.read start
    if c == '-' then
      spanNode .neg start stop do
        if (← s.read (start + 1)) == '~' then
          spanNode .not (start + 1) stop do
            signed expression stop n (← s.skipBlanks (start + 2))
        else signed expression stop n (← s.skipBlanks (start + 1))
    else if c == '~' then
      spanNode .not start stop do
        signed expression stop n (← s.skipBlanks (start + 1))
    else postfixed expression stop start

def operandNodes (expression : ExpressionParser) (op : Operator) : List (Int × Int) → Parse Unit
  | [] => return ()
  | (start, stop) :: rest => do
    let _ ← expression start (some stop) (some op)
    operandNodes expression op rest

/-- One level of an expression, given the parser for what stands inside it. -/
def expressionStep (expression : ExpressionParser) : ExpressionParser := fun start stop? op? => do
  let s ← source
  let start ← if s.reads start "..." then s.skipBlanks ((← s.dotsEnd start) + 1) else pure start
  if (← s.read start) == ':' then
    progress start "     Expression " "expression.create" start (start + 1)
    progress start "     All        " "expression.create" start (start + 1)
    leaf { kind := .wholeIndex, cur? := some start, code? := some ":" }
    return start
  else
    let stop ← match stop? with
      | some stop => pure stop
      | none => s.expressionEnd start
    progress start "     Expression " "expression.create" start (stop + 1)
    if !startsExpression (← s.read start) then expected start "expression start"
    else
      match ← s.firstSplit start stop (Operator.after op?) with
      | some (op, spans) =>
        spanNode op.kind start stop (operandNodes expression op spans)
        return stop
      | none => signed expression stop s.steps start

def expressionSteps : Nat → ExpressionParser
  | 0, _, _, _ => fail .endless
  | n + 1, start, stop?, op? => expressionStep (expressionSteps n) start stop? op?

/-- More levels than any expression of a text has: each level binds more, or is inside brackets. -/
def depthBound (s : Source) : Nat :=
  32 * (s.size + 2)

/-- An expression from a position on. The end is looked for if it is not given, and only operators
that bind more than a given one are read. -/
def expression : ExpressionParser := fun start stop? op? => do
  expressionSteps (depthBound (← source)) start stop? op?

end Parse

end ArmaGen
