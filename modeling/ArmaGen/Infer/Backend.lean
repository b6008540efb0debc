import ArmaGen.Project.Typing

/-!
# Choosing rules

Which rules emit a node: for most kinds it is fixed, for variables it is the datatype, for the
parts of functions it depends on their results.
-/

namespace ArmaGen

def Kind.rules? : Kind → Option RuleSet
  | .project | .program | .includes | .include | .funcs | .inlines | .inline | .structs | .struct
  | .headers | .header | .log | .error | .warning => some .program
  | .main => some .funcReturn
  | .counter => some .structs
  | .block | .parfor | .forLoop | .whileLoop | .switch | .caseBranch | .otherwise | .branch
  | .ifBranch | .elif | .elseBranch | .tryBlock | .tryBranch | .catchBranch | .statement
  | .pragmaFor | .lcomment | .bcomment | .ecomment => some .codeBlock
  | .expr | .exp | .elexp | .mul | .minus | .elmul | .matrixDivision | .elementDivision
  | .leftMatrixDivision | .leftElementDivision | .plus | .colon | .gt | .ge | .lt | .le | .ne
  | .eq | .band | .bor | .land | .lor | .paren | .neg | .not | .ctranspose | .transpose
  | .wholeIndex | .endIndex | .breakLoop | .returnCall => some .expression
  | .vector => some .matrix
  | .cell | .cvar | .cget | .cset => some (.typed .cell)
  | .int => some (.typed .int)
  | .float => some (.typed .double)
  | .imag => some (.typed .complex)
  | .string => some (.typed .string)
  | .lambda => some (.typed .lambda)
  | .fget | .sget | .fset | .sset => some .structs
  | .nget | .nset => some .struct
  | .resize => some (.typed (.foreign "cube_common"))
  | .verbatim => some .verbatim
  | .opr | .func | .declares | .returns | .params | .assign | .assigns | .matrix | .var | .get
  | .set | .fvar => none

namespace Edit

def functionRules (name : String) (single : Bool) : RuleSet :=
  if name.startsWith "_" then .lambda else if single then .funcReturn else .funcReturns

def choosePart (id returns : NodeId) : Edit Unit := do
  let func ← parent id
  let single := (← count returns) == 1 || (← kind func) == .main
  setBackend id (functionRules (← name func) single)

def chooseByType (id : NodeId) : Edit Unit := do
  match ← typeOf id with
  | .unknown => return ()
  | type => setBackend id (.typed type)

def onlyElement? (id : NodeId) : Edit (Option NodeId) := do
  match ← children id with
  | [row] =>
    match ← children row with
    | [element] => return some element
    | _ => return none
  | _ => return none

def chooseMatrix (id : NodeId) : Edit Unit := do
  match ← onlyElement? id with
  | some element =>
    let rules ← backend element
    if rules != .unknown then setBackend id (if rules.isRecord then rules else .matrix)
  | none => setBackend id .matrix

def chooseRules (id : NodeId) : Edit Unit := do
  let node ← node id
  match node.kind.rules? with
  | some rules => setBackend id rules
  | none =>
    match node.kind with
    | .var | .get | .set => chooseByType id
    | .fvar =>
      let rules ← backend (← childNamed (← declaresOf id) node.name)
      if rules.isRecord then setBackend id rules
    | .assign => setBackend id (← backend (← child id (-1)))
    | .assigns =>
      let rules ← backend (← child id (-1))
      if rules == .funcReturns then setBackend id rules
      else if rules != .unknown then setBackend id .codeBlock
    | .matrix => chooseMatrix id
    | .func => setBackend id (functionRules node.name ((← count (← child id 1)) == 1))
    | .returns => choosePart id id
    | .params | .declares => choosePart id (← child node.parent 1)
    | _ => return ()

end Edit

end ArmaGen
