import ArmaGen.Syntax.Literal

/-!
# Variables, calls and fields

A name may be followed by indices in parentheses, by members of a cell in curly brackets, or by a
field. `reference` reads it where its value is used, `target` where it is assigned to.
-/

namespace ArmaGen.Parse

def nameEnd (k : Int) : Parse Int := do
  (← source).skip isWord (k + 1)

/-- The field name that starts two positions after a closing bracket, if there is one: the
position after it. -/
def fieldAfter? (stop : Int) : Parse (Option Int) := do
  let s ← source
  if (← s.read (stop + 1)) == '.' then
    if isLetter (← s.read (stop + 2)) then return some (← s.skip isWord (stop + 2))
    else return none
  else return none

def variableHead (kind : Kind) (name : String) (cur stop : Int) (value : String)
    (pointer : Int) : Parse Head := do
  return { kind, name, value, pointer, cur? := some cur,
           code? := some ((← source).slice cur stop) }

def cellMemberSteps (expression : ExpressionParser) : Nat → Int → Parse Int
  | 0, _ => fail .endless
  | n + 1, k => do
    let s ← source
    let c ← s.read k
    if c == '\x7d' then return k
    else if startsExpression c then s.skipBlanks ((← expression k none none) + 1)
    else cellMemberSteps expression n (k + 1)

def cellMember (expression : ExpressionParser) (cur : Int) : Parse Int := do
  let s ← source
  if (← s.read cur) != '\x7b' then expected cur "Curly start"
  else cellMemberSteps expression s.steps (cur + 1)

def cellMembers (expression : ExpressionParser) : Nat → Int → Int → Parse Int
  | 0, _, _ => fail .endless
  | n + 1, last, k => do
    let s ← source
    if (← s.read k) == '\x7b' then
      let stop ← cellMember expression k
      cellMembers expression n stop (← s.skipBlanks (stop + 1))
    else return last

/-- The end of the cells that open at `k`, and whether indices follow them: then also the end of
the indices. -/
def cellExtent (k : Int) : Parse (Bool × Int) := do
  let s ← source
  let stop ← s.cellEnd k
  let next ← s.skipBlanks (stop + 1)
  if (← s.read next) == '(' then return (true, ← s.parenEnd next)
  else return (false, stop)

/-! ### Where the value is used -/

/-- The name at `cur` whose cell opens at `k`. Indices after the cell are not supported. -/
def cellVariable (expression : ExpressionParser) (name : String) (cur k : Int) : Parse Int := do
  let s ← source
  let (indexed, stop) ← cellExtent k
  if indexed then
    node (← variableHead .cget name cur (stop + 1) "" 0) do
      progress cur "     Cget       " "variables.variable" cur (stop + 1)
      fail .noAttribute
  else
    node (← variableHead .cvar name cur (stop + 1) "" 0) do
      progress cur "     Cvar       " "variables.variable" cur (stop + 1)
      cellMembers expression s.steps cur k

/-- The name at `cur` whose indices open at `k`, with a field of the record found there or not. -/
def indexedVariable (expression : ExpressionParser) (name : String) (cur k : Int) :
    Parse Int := do
  let s ← source
  let stop ← s.parenEnd k
  match ← fieldAfter? stop with
  | some last =>
    progress cur "     Sget        " "variables.variable" cur last
    node (← variableHead .sget name cur last (s.slice (stop + 2) last) 1) do
      let _ ← argumentList expression k
    return last
  | none =>
    progress cur "     Get        " "variables.variable" cur (stop + 1)
    node (← variableHead .get name cur (stop + 1) "" 0) (argumentList expression k)

/-- Whether a character after a dot may name a field: together they are no operator. -/
def namesField (c : Char) : Bool :=
  !oneOf "*/\\^'" c

def fieldVariable (expression : ExpressionParser) (name : String) (cur k : Int) : Parse Int := do
  let s ← source
  let c ← s.read k
  if c == '(' then
    let stop ← s.parenEnd k
    progress cur "     Nget       " "variables.variable" cur (stop + 1)
    let start ← s.skipBlanks (k + 1)
    node (← variableHead .nget name cur (stop + 1) "" 0) (expression start none none)
  else if isLetter c then
    let last ← nameEnd k
    let value := s.slice k last
    let j ← s.skipBlanks last
    if (← s.read j) == '(' then
      let stop ← s.parenEnd j
      progress cur "     Fget       " "variables.variable" cur (stop + 1)
      declaring do
        node (← variableHead .fget name cur (stop + 1) value 0) do
          expression (← s.skipBlanks (j + 1)) none none
    else
      progress cur "     Fvar       " "variables.variable" cur last
      declaring (leaf (← variableHead .fvar name cur last value 0))
      return last - 1
  else return cur

/-- A variable, call or field whose value is used; gives the position after which to go on. -/
def reference (expression : ExpressionParser) (cur : Int) : Parse Int := do
  let s ← source
  let start := if (← s.read cur) == '@' then cur + 1 else cur
  if !isLetter (← s.read start) then expected start "variable name"
  else
    let last ← nameEnd start
    let name := s.slice cur last
    let k ← s.skipBlanks last
    let c ← s.read k
    let stop ←
      if c == '\x7b' then cellVariable expression name cur k
      else if c == '(' then indexedVariable expression name cur k
      else if ← (if c == '.' then s.holds namesField (k + 1) else pure false) then
        fieldVariable expression name cur (k + 1)
      else do
        progress cur "     Var        " "variables.variable" cur last
        leaf (← variableHead .var name cur last "" 0)
        pure (last - 1)
    s.skipBlanks stop

/-! ### Where a value is assigned -/

def cellTarget (name : String) (cur k : Int) : Parse Int := do
  let (indexed, stop) ← cellExtent k
  let (kind, label) :=
    if indexed then (Kind.cset, "     Cset       ") else (Kind.cvar, "     Cvar       ")
  node (← variableHead kind name cur (stop + 1) "" 0) do
    progress cur label "variables.assign" cur (stop + 1)
    fail .noAttribute

def indexedTarget (expression : ExpressionParser) (name : String) (cur k : Int) :
    Parse Int := do
  let s ← source
  let stop ← s.parenEnd k
  match ← fieldAfter? stop with
  | some last =>
    progress cur "     Sset        " "variables.assign" cur last
    declaring do
      node (← variableHead .sset name cur last (s.slice (stop + 2) last) 1) do
        let _ ← argumentList expression k
    return last - 1
  | none =>
    progress cur "     Set        " "variables.assign" cur (stop + 1)
    declaring (do
      node (← variableHead .set name cur (stop + 1) "" 0) (argumentList expression k))

/-- The name at `cur` whose field, with its name from `k` on, is assigned to. Without a field name
nothing is made, and the node around is declared. -/
def fieldTarget (expression : ExpressionParser) (name : String) (cur k : Int) : Parse Int := do
  let s ← source
  let c ← s.read k
  if c == '(' then
    let stop ← s.parenEnd k
    let _ ← s.skipBlanks (k + 1)
    progress cur "     Nset       " "variables.assign" cur (stop + 1)
    declaring do
      node (← variableHead .nset name cur (stop + 1) "" 0) (expression cur none none)
  else if isLetter c then
    let last ← s.skip (fun d => isWord d || d == '.') (k + 1)
    let value := s.slice k last
    let j ← s.skipBlanks last
    if (← s.read j) == '(' then
      let stop ← s.parenEnd j
      progress cur "     Fset       " "variables.assign" cur (stop + 1)
      declaring do
        node (← variableHead .fset name cur (stop + 1) value 0) (argumentList expression j)
    else
      progress cur "     Fvar       " "variables.assign" cur last
      declaring (leaf (← variableHead .fvar name cur last value 0))
      return last - 1
  else
    declareAround
    return cur

/-- A variable, element or field that is assigned to; gives its last position. -/
def target (expression : ExpressionParser) (cur : Int) : Parse Int := do
  let s ← source
  if !isLetter (← s.read cur) then expected cur "assign variable name"
  else
    let last ← nameEnd cur
    let name := s.slice cur last
    let k ← s.skipBlanks last
    let c ← s.read k
    if c == '\x7b' then cellTarget name cur k
    else if c == '(' then indexedTarget expression name cur k
    else if c == '.' then fieldTarget expression name cur (k + 1)
    else
      progress cur "     Var        " "variables.assign" cur last
      declaring (leaf (← variableHead .var name cur last "" 0))
      return last - 1

end ArmaGen.Parse
