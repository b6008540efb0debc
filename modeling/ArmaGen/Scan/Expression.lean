import ArmaGen.Scan.Bracket

/-!
# Where expressions end

An expression ends before a separator, a closing bracket, a comment, a line end or an assignment
sign; brackets, strings and continuations inside it are passed as a whole. In a list whose items
are separated by blanks it ends earlier, before a blank that separates.
-/

namespace ArmaGen.Source

def expressionSteps (s : Source) : Nat → Int → Scan Int
  | 0, _ => .error .endless
  | n + 1, k => do
    let c ← s.read k
    if c == '(' then expressionSteps s n ((← s.parenEnd k) + 1)
    else if c == '[' then expressionSteps s n ((← s.matrixEnd k) + 1)
    else if ← s.stringAt k then expressionSteps s n ((← s.stringEnd k) + 1)
    else if c == '\x7b' then expressionSteps s n ((← s.cellEnd k) + 1)
    else if s.reads k "..." then expressionSteps s n ((← s.dotsEnd k) + 1)
    else if c == '=' then
      if (← s.read (k + 1)) == '=' then expressionSteps s n (k + 2) else return k
    else if oneOf "><~" c then
      if (← s.read (k + 1)) == '=' then expressionSteps s n (k + 2)
      else expressionSteps s n (k + 1)
    else if endsExpression c then return k
    else expressionSteps s n (k + 1)

def expressionEnd (s : Source) (start : Int) : Scan Int := do
  if !startsExpression (← s.read start) then s.expected start "expression start"
  else s.backBlanks ((← s.expressionSteps s.steps start) - 1)

/-- Reads on from `k` in a blank-separated list; `last` is the end of what was read so far. -/
def spacedSteps (s : Source) : Nat → Int → Int → Scan Int
  | 0, _, _ => .error .endless
  | n + 1, last, k => do
    let c ← s.read k
    if c == '(' then let e ← s.parenEnd k; spacedSteps s n e (e + 1)
    else if c == '[' then let e ← s.matrixEnd k; spacedSteps s n e (e + 1)
    else if c == '\'' then
      if ← s.opensString k then let e ← s.stringEnd k; spacedSteps s n e (e + 1)
      else spacedSteps s n k (k + 1)
    else if c == '\x7b' then let e ← s.cellEnd k; spacedSteps s n e (e + 1)
    else if s.reads k "..." then spacedSteps s n last ((← s.dotsEnd k) + 1)
    else if c == ';' then return last
    else if c == '=' then
      if (← s.read (k + 1)) == '=' then spacedSteps s n last (k + 2) else return last
    else if oneOf "><~" c then
      if (← s.read (k + 1)) == '=' then spacedSteps s n last (k + 2)
      else spacedSteps s n last (k + 1)
    else if oneOf "+-" c then spacedSteps s n last ((← s.through isBlank k) + 1)
    else if isBlank c then
      if ← s.spaceDelimiter k then return last
      else spacedSteps s n last ((← s.through (oneOf " \t+-~") k) + 1)
    else if endsExpression c then return last
    else if isHandle c then
      let e ← s.through isHandle k
      spacedSteps s n e (e + 1)
    else spacedSteps s n last (k + 1)

def spacedExpressionEnd (s : Source) (start : Int) : Scan Int := do
  if !startsExpression (← s.read start) then s.expected start "expression start"
  else s.spacedSteps s.steps start start

end ArmaGen.Source
