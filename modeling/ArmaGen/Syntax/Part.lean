import ArmaGen.Syntax.Function

/-!
# The parts of the grammar

The parts of the grammar that can be read on their own, below a node of a given kind.
-/

namespace ArmaGen

inductive Part where
  | function
  | script
  | lambdaAssignment
  | lambdaFunction
  | block
  | assignments
  | assignment
  | parfor
  | forLoop
  | branch
  | whileLoop
  | switch
  | tryBlock
  | cell
  | pragma
  | comment
  | verbatim
  | string
  | list
  | matrix
  | number
  | command
  | reference
  | target
  | expression
  | cellMember
deriving Repr, DecidableEq, Inhabited

namespace Part

def admits (part : Part) (kind : Kind) : Except Failure Unit :=
  let check := fun (holds : Bool) => if holds then .ok () else .error .violated
  match part with
  | .function | .script => check (kind == .funcs)
  | .lambdaFunction => check (kind == .assign)
  | .block => if kind.holdsBlock then .ok () else .error (.blockParent kind.name)
  | .lambdaAssignment | .assignments | .assignment | .parfor | .forLoop | .branch | .whileLoop
  | .switch | .tryBlock | .command => check kind.isBlock
  | .pragma | .comment | .verbatim => check (kind == .block)
  | .cell | .string | .list | .matrix | .number | .reference | .target | .expression
  | .cellMember => .ok ()

/-- Reads a part below a node of a kind, with the position of a sign or an end if it needs one. -/
def parse (part : Part) (kind : Kind) (cur : Int) (arg? : Option Int) : Parse (Option Int) :=
  let plain := fun (parser : Parse Int) => do
    if arg?.isSome then Parse.fail .wrongSort else return some (← parser)
  let signed := fun (parser : Int → Parse Int) => do
    match arg? with
    | some eq => return some (← parser eq)
    | none => Parse.fail .wrongSort
  match part with
  | .function => plain (Parse.function cur)
  | .script => plain (Parse.script cur)
  | .lambdaAssignment => signed (Parse.lambdaAssignment cur)
  | .lambdaFunction =>
    plain (Parse.lambdaFunction
      (if kind == .assign then .error (.childRange kind.name 0) else .ok "lambda") cur)
  | .block => plain (Parse.block cur)
  | .assignments => signed (Parse.assignments cur)
  | .assignment => signed (Parse.assignment cur)
  | .parfor => plain (Parse.parforStatement Parse.block cur)
  | .forLoop => plain (Parse.forStatement Parse.block cur)
  | .branch => plain (Parse.ifStatement Parse.block cur)
  | .whileLoop => plain (Parse.whileStatement Parse.block cur)
  | .switch => plain (Parse.switchStatement Parse.block cur)
  | .tryBlock => plain (Parse.tryStatement Parse.block cur)
  | .cell => plain (Parse.cellLiteral Parse.expression cur)
  | .pragma => plain (Parse.pragma cur)
  | .comment => plain (Parse.comment cur)
  | .verbatim => plain (Parse.verbatim cur)
  | .string => plain (Parse.stringLiteral cur)
  | .list => plain (Parse.argumentList Parse.expression cur)
  | .matrix => plain (Parse.matrixLiteral Parse.expression cur)
  | .number => plain (Parse.number cur)
  | .command => do
    if arg?.isSome then Parse.fail .wrongSort else Parse.command cur
  | .reference => plain (Parse.reference Parse.expression cur)
  | .target => do return some (← Parse.target Parse.expression cur)
  | .expression => do return some (← Parse.expression cur arg? none)
  | .cellMember => plain (Parse.cellMember Parse.expression cur)

end Part

end ArmaGen
