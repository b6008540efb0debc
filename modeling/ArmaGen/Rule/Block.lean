import ArmaGen.Emit.Auxiliary
import ArmaGen.Emit.Log

/-!
# Rules for blocks, branches, loops and comments
-/

namespace ArmaGen.Rule

open Edit

def withBlock (head block : String) : String :=
  head ++ "\n\x7b\n" ++ block ++ "\n\x7d"

/-! ### Choices -/

/-- The rule for choices by value. A value that is not a variable gets one. -/
def switch : Rule := fun id => do
  let chosen ← child id 0
  let texts ← childTexts id
  let cases := joinWith "\n" (texts.drop 1)
  if (← kind chosen) == .var then Emit.text cases
  else
    setType id (← typeOf chosen)
    Emit.text ("%(type)s _var_%(type)s = %(0)s ;\n" ++ cases)

def caseBranch : Rule := fun id => do
  let above ← parent id
  let first ← child above 1
  let head := if first == id then "if (%(0)s == " else "else if (%(0)s == "
  let chosen ← child above 0
  let compared ← if (← kind chosen) == .var then name chosen
    else do
      setType id (← typeOf chosen)
      pure "_var_%(type)s"
  Emit.text (withBlock (head ++ compared ++ ")") "%(1)s")

/-- The rule for handlers. A handler by name has to name a function. -/
def catchBranch : Rule := fun id => do
  match (← name id).toList with
  | [] | '@' :: _ => Emit.around "catch (...)\n\x7b\n" "" "\n\x7d"
  | _ => throw Failure.wrongSort

/-! ### Loops -/

def rangeTexts (range : NodeId) : Edit (String × String × String) := do
  match ← childTexts range with
  | [start, stop] => return (start, "1", stop)
  | [start, step, stop] => return (start, step, stop)
  | _ => throw .unset

def loop (before : String) : Rule := fun id => do
  match ← children id with
  | _ :: range :: _ =>
    if (← kind range) == .colon then
      let (start, step, stop) ← rangeTexts range
      let advance := if step == "1" then "++" else "+=" ++ step
      Emit.text (withBlock (before ++ "for (%(0)s=" ++ start ++ "; %(0)s<=" ++ stop ++
        "; %(0)s" ++ advance ++ ")") "%(2)s")
    else
      Emit.text (withBlock
        (before ++ "for (int _%(0)s=0; _%(0)s<length(%(1)s); _%(0)s++)")
        "%(0)s = %(1)s[_%(0)s] ;\n%(2)s")
  | _ => throw Failure.unreadable

/-! ### Lines -/

/-- The lines of a block: comments at the end of a line stay on it. -/
def blockLines (text : String) : List NodeId → Edit String
  | [] => return text
  | id :: rest => do
    let separator := if (← kind id) == .ecomment then " " else "\n"
    blockLines (text ++ separator ++ (← str id)) rest

def block : Rule := fun id => do
  match ← children id with
  | [] => Emit.text "// Empty block"
  | first :: rest => Emit.text (← blockLines (← str first) rest)

/-- The rule for assignments to several variables: elements are assigned one by one. -/
def assignElements : Rule := fun id => do
  let last ← child id (-1)
  if (← kind last) != .var then
    let _ ← Emit.auxiliaryOwn last
  let array ← str (← child id (-1))
  let lines := (List.range ((← count id) - 1)).map fun i =>
    Template.child i ++ " = " ++ array ++ "(" ++ toString i ++ ") ;"
  Emit.text (joinWith "\n" lines)

def blockRule? : Kind → Option Rule
  | .statement => some fun _ => Emit.text "%(0)s ;"
  | .whileLoop => some fun id => do
    error id "While-loops are currently not supported."
    Emit.text (withBlock "while (%(0)s)" "%(1)s")
  | .branch => some fun _ => Emit.around "" "\n" ""
  | .ifBranch => some fun _ => Emit.text (withBlock "if (%(0)s)" "%(1)s")
  | .elif => some fun _ => Emit.text (withBlock "else if (%(0)s)" "%(1)s")
  | .elseBranch | .otherwise => some fun _ => Emit.text (withBlock "else" "%(0)s")
  | .switch => some switch
  | .caseBranch => some caseBranch
  | .tryBlock => some fun id => do
    error id "Try-statement are currently not supported."
    Emit.around "" "\n" ""
  | .tryBranch => some fun _ => Emit.around "try\n\x7b\n" "" "\n\x7d"
  | .catchBranch => some catchBranch
  | .block => some block
  | .assigns => some assignElements
  | .parfor => some (loop "#pragma omp parallel for\n")
  | .forLoop => some (loop "")
  | .pragmaFor => some fun _ => Emit.text "#pragma omp parallel for %(value)s"
  | .bcomment => some fun _ => Emit.text "/*%(value)s*/"
  | .lcomment | .ecomment => some fun _ => Emit.text "//%(value)s"
  | _ => none

end ArmaGen.Rule
