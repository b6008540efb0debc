/-!
# Kinds of nodes

Every node of a tree has a kind, which says what the node stands for in the program. The name of
a kind is what summaries and reports show.
-/

namespace ArmaGen

inductive Kind where
  | project
  | program
  | includes
  | include
  | funcs
  | inlines
  | inline
  | structs
  | struct
  | counter
  | headers
  | header
  | log
  | error
  | warning
  | main
  | func
  | declares
  | returns
  | params
  | block
  | parfor
  | forLoop
  | whileLoop
  | switch
  | caseBranch
  | otherwise
  | branch
  | ifBranch
  | elif
  | elseBranch
  | tryBlock
  | tryBranch
  | catchBranch
  | statement
  | assign
  | assigns
  | expr
  | opr
  | exp
  | elexp
  | mul
  | minus
  | elmul
  | matrixDivision
  | elementDivision
  | leftMatrixDivision
  | leftElementDivision
  | plus
  | colon
  | gt
  | ge
  | lt
  | le
  | ne
  | eq
  | band
  | bor
  | land
  | lor
  | paren
  | neg
  | not
  | ctranspose
  | transpose
  | wholeIndex
  | endIndex
  | breakLoop
  | returnCall
  | matrix
  | vector
  | cell
  | int
  | float
  | imag
  | string
  | lambda
  | pragmaFor
  | lcomment
  | bcomment
  | ecomment
  | verbatim
  | var
  | get
  | set
  | fvar
  | cvar
  | cget
  | fget
  | sget
  | nget
  | cset
  | fset
  | sset
  | nset
  | resize
deriving Repr, DecidableEq, Inhabited

namespace Kind

def name : Kind → String
  | .project => "Project"
  | .program => "Program"
  | .includes => "Includes"
  | .include => "Include"
  | .funcs => "Funcs"
  | .inlines => "Inlines"
  | .inline => "Inline"
  | .structs => "Structs"
  | .struct => "Struct"
  | .counter => "Counter"
  | .headers => "Headers"
  | .header => "Header"
  | .log => "Log"
  | .error => "Error"
  | .warning => "Warning"
  | .main => "Main"
  | .func => "Func"
  | .declares => "Declares"
  | .returns => "Returns"
  | .params => "Params"
  | .block => "Block"
  | .parfor => "Parfor"
  | .forLoop => "For"
  | .whileLoop => "While"
  | .switch => "Switch"
  | .caseBranch => "Case"
  | .otherwise => "Otherwise"
  | .branch => "Branch"
  | .ifBranch => "If"
  | .elif => "Elif"
  | .elseBranch => "Else"
  | .tryBlock => "Tryblock"
  | .tryBranch => "Try"
  | .catchBranch => "Catch"
  | .statement => "Statement"
  | .assign => "Assign"
  | .assigns => "Assigns"
  | .expr => "Expr"
  | .opr => "Opr"
  | .exp => "Exp"
  | .elexp => "Elexp"
  | .mul => "Mul"
  | .minus => "Minus"
  | .elmul => "Elmul"
  | .matrixDivision => "Matrixdivision"
  | .elementDivision => "Elementdivision"
  | .leftMatrixDivision => "Leftmatrixdivision"
  | .leftElementDivision => "Leftelementdivision"
  | .plus => "Plus"
  | .colon => "Colon"
  | .gt => "Gt"
  | .ge => "Ge"
  | .lt => "Lt"
  | .le => "Le"
  | .ne => "Ne"
  | .eq => "Eq"
  | .band => "Band"
  | .bor => "Bor"
  | .land => "Land"
  | .lor => "Lor"
  | .paren => "Paren"
  | .neg => "Neg"
  | .not => "Not"
  | .ctranspose => "Ctranspose"
  | .transpose => "Transpose"
  | .wholeIndex => "All"
  | .endIndex => "End"
  | .breakLoop => "Break"
  | .returnCall => "Return"
  | .matrix => "Matrix"
  | .vector => "Vector"
  | .cell => "Cell"
  | .int => "Int"
  | .float => "Float"
  | .imag => "Imag"
  | .string => "String"
  | .lambda => "Lambda"
  | .pragmaFor => "Pragma_for"
  | .lcomment => "Lcomment"
  | .bcomment => "Bcomment"
  | .ecomment => "Ecomment"
  | .verbatim => "Verbatim"
  | .var => "Var"
  | .get => "Get"
  | .set => "Set"
  | .fvar => "Fvar"
  | .cvar => "Cvar"
  | .cget => "Cget"
  | .fget => "Fget"
  | .sget => "Sget"
  | .nget => "Nget"
  | .cset => "Cset"
  | .fset => "Fset"
  | .sset => "Sset"
  | .nset => "Nset"
  | .resize => "Resize"

def all : List Kind := [
  .project, .program, .includes, .include, .funcs, .inlines, .inline, .structs, .struct,
  .counter, .headers, .header, .log, .error, .warning, .main, .func, .declares, .returns,
  .params, .block, .parfor, .forLoop, .whileLoop, .switch, .caseBranch, .otherwise, .branch,
  .ifBranch, .elif, .elseBranch, .tryBlock, .tryBranch, .catchBranch, .statement, .assign,
  .assigns, .expr, .opr, .exp, .elexp, .mul, .minus, .elmul, .matrixDivision, .elementDivision,
  .leftMatrixDivision, .leftElementDivision, .plus, .colon, .gt, .ge, .lt, .le, .ne, .eq, .band,
  .bor, .land, .lor, .paren, .neg, .not, .ctranspose, .transpose, .wholeIndex, .endIndex,
  .breakLoop, .returnCall, .matrix, .vector, .cell, .int, .float, .imag, .string, .lambda,
  .pragmaFor, .lcomment, .bcomment, .ecomment, .verbatim, .var, .get, .set, .fvar, .cvar, .cget,
  .fget, .sget, .nget, .cset, .fset, .sset, .nset, .resize
]

def ofName? (name : String) : Option Kind :=
  all.find? fun kind => kind.name == name

/-! ### Families of kinds -/

def isBlock : Kind → Bool
  | .block | .parfor | .forLoop | .whileLoop | .switch | .caseBranch | .otherwise | .branch
  | .ifBranch | .elif | .elseBranch | .tryBlock | .tryBranch | .catchBranch | .statement => true
  | _ => false

def holdsBlock : Kind → Bool
  | .caseBranch | .catchBranch | .elif | .elseBranch | .parfor | .forLoop | .func | .ifBranch
  | .main | .otherwise | .switch | .tryBranch | .whileLoop => true
  | _ => false

def isGet : Kind → Bool
  | .get | .cget | .nget | .fget | .sget => true
  | _ => false

def isSet : Kind → Bool
  | .set | .cset | .nset | .fset | .sset => true
  | _ => false

def isIndexed (kind : Kind) : Bool :=
  kind.isGet || kind.isSet

/-- The kinds that bound a group: datatypes do not spread beyond them by themselves. -/
def isGroup (kind : Kind) : Bool :=
  kind.isIndexed || match kind with
    | .assign | .assigns | .branch | .forLoop | .func | .main | .statement | .switch | .tryBlock
    | .matrix | .whileLoop | .block | .transpose | .ctranspose => true
    | _ => false

def isUndeclared : Kind → Bool
  | .program | .project | .include | .includes | .struct | .structs => true
  | _ => false

def isField : Kind → Bool
  | .fvar | .fget | .fset | .nget | .nset | .sget | .sset => true
  | _ => false

def isName (kind : Kind) : Bool :=
  kind.isIndexed || match kind with
    | .var | .fvar | .cvar => true
    | _ => false

def needsName (kind : Kind) : Bool :=
  kind.isName || match kind with
    | .program | .header | .error | .warning | .counter | .inline | .include | .verbatim => true
    | _ => false

def needsValue : Kind → Bool
  | .error | .warning | .counter | .int | .float | .imag | .string | .pragmaFor | .lcomment
  | .bcomment | .ecomment | .fvar | .fget | .sget | .fset | .sset | .verbatim => true
  | _ => false

def holdsText : Kind → Bool
  | .string | .lcomment | .bcomment | .ecomment => true
  | _ => false

end Kind

end ArmaGen
