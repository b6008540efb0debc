import ArmaGen.Syntax.Expression

/-!
# Assignments and anonymous functions

An assignment to one variable takes its name from what is assigned. An anonymous function is a node
with the parts of a function below it: it becomes a function of the program when the tree is built
into a project.
-/

namespace ArmaGen.Parse

def lastName (items : List Syntax) : Except Failure String :=
  match (Syntax.nodes items).getLast? with
  | some tree => .ok tree.name
  | none => .error .outside

/-! ### One variable -/

def assignment (cur eq : Int) : Parse Int := do
  let s ← source
  if !isLetter (← s.read cur) then expected cur "assignment start"
  else if (← s.read eq) != '=' then expected cur "assignment indicator (=)"
  else
    let stop ← s.expressionEnd (← s.skipBlanks (eq + 1))
    progress cur "   Assign     " "assign.single" cur (stop + 1)
    let head : Head := { kind := .assign, cur? := some cur, code? := some (s.slice cur (stop + 1)) }
    wrap head (do
      let last ← target expression cur
      let k ← s.skipBlanks (last + 1)
      let k ← if (← s.read k) == ']' then s.skipBlanks (k + 1) else pure k
      if (← s.read k) != '=' then expected k "assignment indicator (=)"
      else
        let k ← s.skipBlanks (k + 1)
        let _ ← expression k (some stop) none
        return k) fun items k =>
      match lastName items with
      | .error failure => (head, .error failure)
      | .ok name =>
        let head := { head with name }
        if (Syntax.nodes items).length = 2 then (head, .ok stop)
        else (head, s.expected k "single assign when multi-assign")

/-! ### Several variables -/

def skipContinued : Nat → Int → Parse Int
  | 0, _ => fail .endless
  | n + 1, k => do
    let s ← source
    let c ← s.read k
    if c == '.' then skipContinued n ((← s.dotsEnd k) + 1)
    else if isBlank c then skipContinued n (k + 1)
    else return k

def targets : List (Int × Int) → Parse Unit
  | [] => return ()
  | (start, _) :: rest => do
    let _ ← target expression start
    targets rest

/-- An assignment to the variables in the brackets at `cur`, with its sign at `eq`. One variable in
brackets is assigned to as if it stood alone. -/
def assignments (cur eq : Int) : Parse Int := do
  let s ← source
  if (← s.read cur) != '[' then expected cur "multi-assign start"
  else if (← s.read eq) != '=' then expected cur "assignment sign (=)"
  else
    let stop ← s.expressionEnd (← skipContinued s.steps (eq + 1))
    progress cur "   Assigns    " "assign.multi" cur (stop + 1)
    let rows ← s.items cur
    match rows with
    | [(start, _)] :: _ => assignment start eq
    | _ =>
      let head : Head :=
        { kind := .assigns, cur? := some cur, code? := some (s.slice cur (stop + 1)) }
      wrap head (do
        targets rows.flatten
        expression (← s.skipBlanks (eq + 1)) none none) fun items last =>
        match lastName items with
        | .error failure => (head, .error failure)
        | .ok name => ({ head with name }, .ok last)

/-! ### Anonymous functions -/

/-- The parts of an anonymous function. The results are only named once the value is read. -/
def lambdaBody (k stop : Int) : Parse Int := do
  let s ← source
  leaf { kind := .declares }
  leaf { kind := .returns }
  let last ← node { kind := .params } do
    let k ← s.skipBlanks (k + 1)
    if (← s.read k) != '(' then expected k "anonymous function argument list"
    else argumentList expression k
  let start ← s.skipBlanks (last + 1)
  node { kind := .block } do
    let head : Head := { kind := .assign }
    wrap head (do
      leaf { kind := .var, name := "_retval" }
      expression start (some stop) none) fun items last =>
      (head, if (Syntax.nodes items).length < 2 then .error (.childRange "Assign" 1) else .ok last)

def nameResult : List Syntax → List Syntax
  | [] => []
  | .node head items :: rest =>
    if head.kind == .returns then
      .node head (items ++ [.leaf { kind := .var, name := "_retval" }]) :: rest
    else .node head items :: nameResult rest
  | item :: rest => item :: nameResult rest

def lambdaFunction (base : Except Failure String) (cur : Int) : Parse Int := do
  let s ← source
  if (← s.read cur) != '@' then expected cur "anonymous function indicator (@)"
  else
    let k ← s.skipBlanks (cur + 1)
    if (← s.read k) != '(' then expected k "anonymous function argument list"
    else
      let stop ← s.expressionEnd (← s.skipBlanks ((← s.parenEnd k) + 1))
      progress cur "   Lambda       " "functions.lambda_func" cur (stop + 1)
      let head : Head :=
        { kind := .func, name := "_" ++ (← base), cur? := some cur,
          code? := some (s.slice cur (stop + 1)) }
      match ← attempt (lambdaBody cur stop) with
      | (made, .error failure) =>
        emit [.node head made]
        fail failure
      | (made, .ok last) =>
        emit [.node { head with kind := .lambda } (nameResult made)]
        return last

def firstName (items : List Syntax) : Except Failure String :=
  match Syntax.nodes items with
  | tree :: _ => .ok tree.name
  | [] => .error (.childRange "Assign" 0)

def lambdaAssignment (cur eq : Int) : Parse Int := do
  let s ← source
  if !isLetter (← s.read cur) then expected cur "anonymous function name"
  else if (← s.read eq) != '=' then expected cur "anonymous function assignment (=)"
  else
    note fun _ => column cur ++ "   Assign        " ++
      quoted (s.slice cur ((s.find? "\n" cur).getD (-1))) ++ " functions.lambda_assign"
    nodeThen { kind := .assign, cur? := some cur } (do
      match ← attempt (target expression cur) with
      | (made, .error failure) =>
        emit made
        fail failure
      | (made, .ok _) =>
        emit made
        lambdaFunction (firstName made) (← s.skipBlanks (eq + 1)))
      fun last => s.slice cur (last + 1)

end ArmaGen.Parse
