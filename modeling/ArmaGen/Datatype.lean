import ArmaGen.Failure

/-!
# Datatypes

A numerical datatype is a shape together with an element type, and has the name Armadillo gives it
(`int`, `frowvec`, `cx_mat`, ...). Beside the 25 numerical types there are eight others, the unknown
type `TYPE`, and any other name that a user may write. `Datatype.commonStrict` and
`Datatype.commonLoose` give the type that covers several types: a column met by a row gives a
matrix, or nothing at all when read strictly.
-/

namespace ArmaGen

inductive Shape where
  | scalar
  | column
  | row
  | matrix
  | cube
deriving Repr, DecidableEq, Inhabited

inductive Element where
  | uword
  | int
  | float
  | double
  | complex
deriving Repr, DecidableEq, Inhabited

def Shape.rank : Shape → Nat
  | .scalar => 0
  | .column => 1
  | .row => 2
  | .matrix => 3
  | .cube => 4

def Shape.ofRank? : Nat → Option Shape
  | 0 => some .scalar
  | 1 => some .column
  | 2 => some .row
  | 3 => some .matrix
  | 4 => some .cube
  | _ => none

def Element.rank : Element → Nat
  | .uword => 0
  | .int => 1
  | .float => 2
  | .double => 3
  | .complex => 4

def Element.ofRank? : Nat → Option Element
  | 0 => some .uword
  | 1 => some .int
  | 2 => some .float
  | 3 => some .double
  | 4 => some .complex
  | _ => none

def Shape.all : List Shape := [.scalar, .column, .row, .matrix, .cube]

def Element.all : List Element := [.uword, .int, .float, .double, .complex]

inductive OtherType where
  | char
  | string
  | lambda
  | struct
  | structs
  | cell
  | wallClock
  | splot
deriving Repr, DecidableEq, Inhabited

inductive Datatype where
  | unknown
  | num (shape : Shape) (element : Element)
  | other (type : OtherType)
  | foreign (name : String)
deriving Repr, DecidableEq, Inhabited

def OtherType.name : OtherType → String
  | .char => "char"
  | .string => "string"
  | .lambda => "func_lambda"
  | .struct => "struct"
  | .structs => "structs"
  | .cell => "cell"
  | .wallClock => "wall_clock"
  | .splot => "SPlot"

def OtherType.all : List OtherType :=
  [.char, .string, .lambda, .struct, .structs, .cell, .wallClock, .splot]

def Element.scalarName : Element → String
  | .uword => "uword"
  | .int => "int"
  | .float => "float"
  | .double => "double"
  | .complex => "cx_double"

def Element.arrayMark : Element → String
  | .uword => "u"
  | .int => "i"
  | .float => "f"
  | .double => ""
  | .complex => "cx_"

def Shape.arrayName : Shape → String
  | .scalar => "double"
  | .column => "vec"
  | .row => "rowvec"
  | .matrix => "mat"
  | .cube => "cube"

namespace Datatype

def numName (shape : Shape) (element : Element) : String :=
  match shape with
  | .scalar => element.scalarName
  | _ => element.arrayMark ++ shape.arrayName

def name : Datatype → String
  | .unknown => "TYPE"
  | .num shape element => numName shape element
  | .other type => type.name
  | .foreign name => name

def named : List Datatype :=
  .unknown ::
    (Shape.all.flatMap fun shape => Element.all.map fun element => .num shape element) ++
    OtherType.all.map .other

def ofName (name : String) : Datatype :=
  (named.find? fun type => type.name == name).getD (.foreign name)

/-! ### Frequent datatypes -/

abbrev int : Datatype := .num .scalar .int

abbrev uword : Datatype := .num .scalar .uword

abbrev double : Datatype := .num .scalar .double

abbrev complex : Datatype := .num .scalar .complex

abbrev uvec : Datatype := .num .column .uword

abbrev urowvec : Datatype := .num .row .uword

abbrev vec : Datatype := .num .column .double

abbrev rowvec : Datatype := .num .row .double

abbrev mat : Datatype := .num .matrix .double

abbrev cube : Datatype := .num .cube .double

abbrev cxMat : Datatype := .num .matrix .complex

abbrev string : Datatype := .other .string

abbrev struct : Datatype := .other .struct

abbrev structs : Datatype := .other .structs

abbrev lambda : Datatype := .other .lambda

abbrev cell : Datatype := .other .cell

/-! ### Stars -/

/-- A name without the stars at its end; a name of stars only has none left to give. -/
def unstarred (name : String) : Except Failure String :=
  match name.toList.reverse.dropWhile (· == '*') with
  | [] => .error .outside
  | cs => .ok (String.ofList cs.reverse)

/-- The number of stars in a name, and the name shortened by as many characters. -/
def splitStars (name : String) : Nat × String :=
  let stars := name.toList.count '*'
  (stars, String.ofList (name.toList.take (name.length - stars)))

/-- The type that a type stands for: a name with stars at its end is read without them. -/
def resolve : Datatype → Except Failure Datatype
  | .foreign name => return ofName (← unstarred name)
  | type => return type

/-! ### Shape and element -/

def shape? (type : Datatype) : Except Failure (Option Shape) := do
  match ← type.resolve with
  | .num shape _ => return some shape
  | .foreign name => throw (.datatype name)
  | _ => return none

def element? (type : Datatype) : Except Failure (Option Element) := do
  match ← type.resolve with
  | .num _ element => return some element
  | .foreign name => throw (.datatype name)
  | _ => return none

/-- Whether a type counts as numerical: foreign names do. -/
def isNumeric (type : Datatype) : Except Failure Bool := do
  match ← type.resolve with
  | .num _ _ => return true
  | .foreign _ => return true
  | _ => return false

/-- A member of a list of five by its number, where negative numbers count from the end. -/
def pick {α : Type} (all : List α) (k : Int) : Except Failure α :=
  let k := if k < 0 then k + all.length else k
  match if 0 ≤ k then all[k.toNat]? else none with
  | some a => .ok a
  | none => .error .outside

def ofRanks (shape element : Int) : Except Failure Datatype := do
  return .num (← pick Shape.all shape) (← pick Element.all element)

/-! ### Common datatypes -/

def maxShape (a b : Shape) : Shape :=
  if a.rank < b.rank then b else a

def maxElement (a b : Element) : Element :=
  if a.rank < b.rank then b else a

def allKnown {α : Type} : List (Option α) → Except Failure (List α)
  | [] => return []
  | some a :: rest => return a :: (← allKnown rest)
  | none :: _ => throw .wrongSort

def mixesRows (shapes : List Shape) : Bool :=
  shapes.foldl maxShape .scalar == .row && shapes.contains .column

/-- The type that covers several different types, read strictly: nothing covers types of which
one holds no numbers, nor columns beside rows. -/
def commonStrict (types : List Datatype) : Except Failure Datatype := do
  match types.eraseDups with
  | [] => throw .outside
  | [type] => return type
  | types =>
    if types.any fun type => match type with
        | .unknown => true
        | .other _ => true
        | _ => false then
      return .unknown
    let shapes ← allKnown (← types.mapM shape?)
    if mixesRows shapes then return .unknown
    let elements ← allKnown (← types.mapM element?)
    return .num (shapes.foldl maxShape .scalar) (elements.foldl maxElement .uword)

/-- The type that covers several types, read loosely: types without numbers are passed over,
and columns beside rows are covered by a matrix. -/
def commonLoose (types : List Datatype) : Except Failure Datatype := do
  match types.eraseDups with
  | [] => throw .outside
  | [type] => return type
  | types =>
    match types.filter (· ≠ .unknown) with
    | [type] => return type
    | types =>
      match types.filter fun type => match type with
          | .other _ => false
          | _ => true with
      | [] => return .unknown
      | [type] => return type
      | types =>
        let shapes ← allKnown (← types.mapM shape?)
        let elements ← allKnown (← types.mapM element?)
        let shape := if mixesRows shapes then .matrix else shapes.foldl maxShape .scalar
        return .num shape (elements.foldl maxElement .uword)

end Datatype

end ArmaGen
