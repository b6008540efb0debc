import ArmaGen.Text.Source

/-!
# Where strings, comments, continuations and brackets end

Each scanner starts at the character that opens a construct and gives the position of the character
that closes it. Parentheses, matrices and cells nest in each other, so their closing brackets are
found together by `close`, which is given a bound on the depth. The brackets depend on whether a
quote opens a string or transposes (`opensString`), and on whether blanks or commas separate the
items of a list (`spaceDelimited`).
-/

namespace ArmaGen

inductive Bracket where
  | paren
  | matrix
  | cell
deriving Repr, DecidableEq, Inhabited

namespace Source

/-! ### Constructs without nesting -/

def stringEnd (s : Source) (start : Int) : Scan Int := do
  if (← s.read start) != '\'' then s.expected start "start of string (')"
  else
    match s.find? "'" (start + 1) with
    | none => s.expected start "matching end of string (')"
    | some k =>
      if (s.span start k).contains '\n' then
        s.expected start "non line-feed character in string"
      else return k

def pragmaEnd (s : Source) (start : Int) : Scan Int :=
  match s.find? "\n" start with
  | none => s.expected start "comment end"
  | some k => return k

/-- The end of the comment opened at `start`: of a block its last character, else the line end. -/
def commentEnd (s : Source) (start : Int) : Scan Int := do
  if (← s.read start) != '%' then s.expected start "comment start"
  else if (← s.read (start + 1)) == '\x7b' then
    match s.find? "%\x7d" (start + 2) with
    | none => s.expected start "matching end of comment block (%\x7d)"
    | some k => return k + 1
  else
    match s.find? "\n" start with
    | none => s.expected start "comment end"
    | some k => return k

def verbatimEnd (s : Source) (start : Int) : Scan Int :=
  if s.reads start "___" then return (s.find? "\n" start).getD (-1) - 1
  else s.expected start "verbatim start"

def dotsEnd (s : Source) (start : Int) : Scan Int :=
  if s.reads start "..." then
    match s.find? "\n" start with
    | none => s.expected start "next line feed character"
    | some k => return k
  else s.expected start "three dots (...)"

/-! ### Context of a quote -/

/-- Whether the quote at `k` opens a string. After a name, a number or a closing bracket it
transposes, except after `case`; after a dot always. -/
def opensString (s : Source) (k : Int) : Scan Bool := do
  if (← s.read k) != '\'' then s.expected k "start of string character (')"
  else if (← s.read (k - 1)) == '.' then return false
  else
    let j ← s.backBlanks (k - 1)
    let c ← s.read j
    if isAlnum c || oneOf ")]\x7d_" c then return s.slice (j - 3) (j + 1) == "case"
    else return true

def stringAt (s : Source) (k : Int) : Scan Bool := do
  if (← s.read k) == '\'' then s.opensString k else return false

/-! ### Blanks as separators -/

/-- Looks over the blanks from `k` on: an operator continues the expression, a sign does so only
when a blank follows it. -/
def delimiterSteps (s : Source) : Nat → Int → Scan Bool
  | 0, _ => .error .endless
  | n + 1, k => do
    if s.reads k "..." then return false
    let c ← s.read k
    if isBlank c then delimiterSteps s n (k + 1)
    else if oneOf "+-~" c then
      if isBlank (← s.read (k + 1)) then return false else delimiterSteps s n (k + 1)
    else if pairOperators.contains (s.slice k (k + 2)) then return false
    else return !isOperator c

def spaceDelimiter (s : Source) (start : Int) : Scan Bool := do
  if isBlank (← s.read start) then s.delimiterSteps s.steps start
  else s.expected start "space delimiter"

def through (s : Source) (p : Char → Bool) (k : Int) : Scan Int := do
  return (← s.skip p (k + 1)) - 1

/-- Reads on in a list from `k` until its separators are known. -/
def delimitedSteps (s : Source) (close : Bracket → Int → Scan Int) : Nat → Int → Scan Bool
  | 0, _ => .error .endless
  | n + 1, k => do
    let c ← s.read k
    if c == '(' then delimitedSteps s close n ((← close .paren k) + 1)
    else if c == '[' then delimitedSteps s close n ((← close .matrix k) + 1)
    else if c == '\x7b' then delimitedSteps s close n ((← close .cell k) + 1)
    else if ← s.stringAt k then return true
    else if s.reads k "..." then delimitedSteps s close n ((← s.dotsEnd k) + 1)
    else if isBlank c then
      if ← s.spaceDelimiter k then return true
      else delimitedSteps s close n ((← s.through isBlank k) + 1)
    else if endsExpression c then
      if c == ',' || closesList c then return false
      else if c != ';' then return true
      else delimitedSteps s close n ((← s.through isBlank k) + 1)
    else if isHandle (← s.read (k + 1)) then
      delimitedSteps s close n ((← s.through isHandle k) + 1)
    else delimitedSteps s close n (k + 1)

def delimitedBy (s : Source) (close : Bracket → Int → Scan Int) (start : Int) : Scan Bool := do
  if !opensList (← s.read start) then s.expected start "list start"
  else
    let k ← s.skipBlanks (start + 1)
    let c ← s.read k
    if closesList c then return false
    else if !startsExpression c then s.expected k "expression start"
    else if c == '\'' then
      s.delimitedSteps close s.steps (← s.skipBlanks ((← s.stringEnd k) + 1))
    else s.delimitedSteps close s.steps k

/-! ### Brackets -/

def parenSteps (s : Source) (close : Bracket → Int → Scan Int) : Nat → Int → Scan Int
  | 0, _ => .error .endless
  | n + 1, k => do
    let c ← s.read k
    if c == '%' then s.expected k "no comments in parenthesis"
    else if s.reads k "..." then parenSteps s close n ((← s.dotsEnd k) + 1)
    else if ← s.stringAt k then parenSteps s close n ((← s.stringEnd k) + 1)
    else if c == '[' then parenSteps s close n ((← close .matrix k) + 1)
    else if c == '(' then parenSteps s close n ((← close .paren k) + 1)
    else if c == ')' then return k
    else parenSteps s close n (k + 1)

def matrixSteps (s : Source) (close : Bracket → Int → Scan Int) : Nat → Int → Scan Int
  | 0, _ => .error .endless
  | n + 1, k => do
    let c ← s.read k
    if c == '[' then matrixSteps s close n ((← close .matrix k) + 1)
    else if c == ']' then return k
    else if c == '%' then matrixSteps s close n ((← s.commentEnd k) + 1)
    else if ← s.stringAt k then matrixSteps s close n ((← s.stringEnd k) + 1)
    else matrixSteps s close n (k + 1)

/-- Reads on inside a cell from `k` to the closing bracket; a cell that directly follows
belongs to it. -/
def cellSteps (s : Source) (close : Bracket → Int → Scan Int) : Nat → Int → Scan Int
  | 0, _ => .error .endless
  | n + 1, k => do
    let c ← s.read k
    if c == '%' then s.expected k "no comment in cell group"
    else if ← s.stringAt k then cellSteps s close n ((← s.stringEnd k) + 1)
    else if c == '(' then cellSteps s close n ((← close .paren k) + 1)
    else if c == '[' then cellSteps s close n ((← close .matrix k) + 1)
    else if c == '\x7d' then
      let l ← s.skipBlanks (k + 1)
      if (← s.read l) != '\x7b' then return k else cellSteps s close n (l + 1)
    else cellSteps s close n (k + 1)

def closeStep (s : Source) (close : Bracket → Int → Scan Int) : Bracket → Int → Scan Int
  | .paren, start => do
    if (← s.read start) != '(' then s.expected start "start parenthesis"
    else s.parenSteps close s.steps (start + 1)
  | .matrix, start => do
    if (← s.read start) != '[' then s.expected start "matrix start ([)"
    else if ← s.delimitedBy close start then
      -- a string that comes first is passed unseen
      let k ← s.skipBlanks (start + 1)
      if (← s.read k) == '\'' then s.matrixSteps close s.steps ((← s.stringEnd k) + 1)
      else s.matrixSteps close s.steps k
    else s.matrixSteps close s.steps (start + 1)
  | .cell, start => do
    if (← s.read start) != '\x7b' then s.expected start "start of cell (\x7b)"
    else s.cellSteps close s.steps start

/-- The closing bracket of the bracket at a position, for brackets nested less than `n` deep. -/
def closeSteps (s : Source) : Nat → Bracket → Int → Scan Int
  | 0, _, _ => .error .endless
  | n + 1, b, start => s.closeStep (closeSteps s n) b start

def close (s : Source) (b : Bracket) (start : Int) : Scan Int :=
  s.closeSteps (s.size + 2) b start

def parenEnd (s : Source) (start : Int) : Scan Int :=
  s.close .paren start

def matrixEnd (s : Source) (start : Int) : Scan Int :=
  s.close .matrix start

def cellEnd (s : Source) (start : Int) : Scan Int :=
  s.close .cell start

def spaceDelimited (s : Source) (start : Int) : Scan Bool :=
  s.delimitedBy s.close start

end Source

end ArmaGen
