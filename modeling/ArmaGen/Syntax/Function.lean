import ArmaGen.Syntax.Block

/-!
# Functions and programs

A program is a sequence of functions, or functions and then a script. Below a function stand the
variables it declares, its results, its parameters and its block, in this order. The text of a
function is known once its block is read.
-/

namespace ArmaGen.Parse

/-! ### Results -/

def resultItems (cur : Int) : List (Int × Int) → Parse Unit
  | [] => return ()
  | (start, stop) :: rest => do
    let s ← source
    progress cur "   Return       " "functions.function" start (stop + 1)
    if !(s.span start (stop + 1)).any isHandle then expected start "return value"
    else
      let name := s.slice start (stop + 1)
      leaf { kind := .var, name, cur? := some start, code? := some name }
      resultItems cur rest

/-- The results of the function at `cur`, read from `start` to `stop`. -/
def results (cur start stop : Int) : Parse Unit := do
  let s ← source
  node { kind := .returns, code? := some (s.slice start (stop + 1)) } do
    if (← s.read start) == '[' then resultItems cur (← s.items start).flatten
    else
      let name := s.slice start ((← s.expressionEnd start) + 1)
      note fun _ => column cur ++ "   Return       " ++ " " ++ quoted name
      leaf { kind := .var, name, cur? := some start, code? := some name }

/-! ### Parameters -/

def parameterItems (cur : Int) : List (Int × Int) → Parse Unit
  | [] => return ()
  | (start, stop) :: rest => do
    let s ← source
    progress cur "   Param        " "functions.function" start (stop + 1)
    let name := s.slice start (stop + 1)
    leaf { kind := .var, name, cur? := some start, code? := some name }
    parameterItems cur rest

def parameters (cur : Int) : Parse Int := do
  let s ← source
  let head : Head := { kind := .params, cur? := some cur }
  if (← elseLeaving (scan (s.read cur)) [.leaf head]) == '(' then
    let stop ← elseLeaving (scan (s.parenEnd cur)) [.leaf head]
    node { head with code? := some (s.slice (cur + 1) stop) } do
      parameterItems cur (← s.commaItems cur).flatten
      return stop
  else
    leaf head
    return cur

/-! ### Functions -/

def skipDots : Nat → Int → Parse Int
  | 0, _ => fail .endless
  | n + 1, k => do
    let s ← source
    if oneOf " \t." (← s.read k) then
      skipDots n ((← if s.reads k "..." then s.dotsEnd k else pure k) + 1)
    else return k

def noteFunction (cur stop : Int) : Parse Unit :=
  progress cur " Function       " "functions.function" cur (stop + 1)

def parametersEnd (k last : Int) : Parse Int := do
  let s ← source
  if (← s.read k) == '(' then s.parenEnd k else return last

/-- The function at `cur` with results from `start` to `stop`, whose sign of assignment stands
at `eq`. -/
def functionWithResults (cur start stop eq : Int) : Parse Int := do
  let s ← source
  let k ← skipDots s.steps (eq + 1)
  if !isLetter (← s.read k) then expected k "function name"
  else
    let last ← s.through isWord k
    noteFunction cur (← parametersEnd (← s.skipBlanks (last + 1)) last)
    nodeThen { kind := .func, name := s.slice k (last + 1), cur? := some cur } (do
      leaf { kind := .declares, code? := some "" }
      results cur start stop
      block ((← parameters (← s.skipBlanks (last + 1))) + 1))
      fun stop => s.slice cur (stop + 1)

/-- The function at `cur` without results, whose name starts at `start`; `stop` is the end of the
expression there and `k` what follows it. -/
def functionWithoutResults (cur start stop k : Int) : Parse Int := do
  let s ← source
  noteFunction cur (← parametersEnd k stop)
  let after ← s.skip (fun c => isLetter c || c == '_') (start + 1)
  nodeThen { kind := .func, name := s.slice start after, cur? := some cur } (do
    leaf { kind := .declares }
    leaf { kind := .returns }
    block ((← parameters after) + 1))
    fun stop => s.slice cur (stop + 1)

def function (cur : Int) : Parse Int := do
  let s ← source
  if !s.reads cur "function" then expected cur "function start"
  else
    let c ← s.read (cur + 8)
    if !(endsKeyword c || c == '[') then expected cur "function name or return values"
    else
      let start ← s.skipBlanks (cur + 8)
      let c ← s.read start
      if !(isLetter c || c == '[') then expected start "function name or return values"
      else
        let stop ← s.expressionEnd start
        let k ← s.skipBlanks (stop + 1)
        if (← s.read k) == '=' then functionWithResults cur start stop k
        else functionWithoutResults cur start stop k

def script (cur : Int) : Parse Int := do
  note fun _ => column cur ++ " Main       " ++ " functions.main"
  node { kind := .main, name := "main" } do
    leaf { kind := .declares }
    leaf { kind := .returns }
    leaf { kind := .params }
    block cur

/-! ### Programs -/

def functions : Nat → Int → Parse Unit
  | 0, _ => fail .endless
  | n + 1, cur => do
    let s ← source
    let c ← s.read cur
    let more := fun (last : Int) =>
      if (s.size : Int) - last ≤ 2 then pure () else functions n (last + 1)
    if oneOf " \t;\n" c then more cur
    else if c == '%' then more (← s.commentEnd cur)
    else if s.reads cur "function" then more (← function cur)
    else
      let _ ← script cur

def program : Parse Unit := do
  note fun _ => "     Program     functions.program"
  functions (← source).steps 0

end ArmaGen.Parse
