import ArmaGen.Rule.Assign
import ArmaGen.Rule.Reserved.Array
import ArmaGen.Rule.Reserved.Plot

/-!
# Rules for reserved names
-/

namespace ArmaGen.Rule

open Edit

/-! ### Functions of numbers -/

def helper (name : String) : Rule := fun id => do
  includeFile id "m2cpp"
  Emit.call ("m2cpp::" ++ name)

def abs : Rule := fun id => do
  match ← children id with
  | first :: _ =>
    if ← hasShape first .scalar then
      if ← hasElement first .complex then
        includeFile id "m2cpp"
        Emit.text "abs(m2cpp::smat(%(0)s))"
      else
        includeFile id "cmath"
        Emit.call "std::abs"
    else Emit.call "abs"
  | [] => Emit.call "abs"

/-- The rule for roots. The root of a negated value is written as an imaginary number. -/
def sqrt : Rule := fun id => do
  match ← children id with
  | first :: _ =>
    match ← kind first, ← childTexts first with
    | .neg, [text] => Emit.text ("cx_double(0, " ++ text ++ ")")
    | _, _ => Emit.call "sqrt"
  | [] => Emit.call "sqrt"

def round : Rule := fun id => do
  let arguments ← children id
  if 2 < arguments.length then throw Failure.violated
  let decimals ← match arguments with
    | [_, decimals] => str decimals
    | _ => pure "0"
  let first ← child id 0
  let power := "round(%(0)s*std::pow(10, %(1)s))*std::pow(10, -%(1)s)"
  if (← elementRankOf first) < 2 then Emit.text "%(0)s"
  else if ← hasShape first .scalar then
    includeFile id "cmath"
    Emit.text ("std::" ++ if decimals == "0" then "round(%(0)s)" else power)
  else Emit.text ("arma::" ++ if decimals == "0" then "round(%(0)s)" else power)

def floor : Rule := fun id => do
  let first ← child id 0
  if !(← isTyped first) then Emit.call "floor"
  else if ← hasShape first .scalar then Emit.text "std::floor(%(0)s)"
  else Emit.text "arma::floor(%(0)s)"

/-! ### Truth values -/

def negation : Rule := fun id => do
  match ← children id with
  | [only] => if ← isNumeric only then Emit.text "(%(0)s == 0)" else Emit.text "not(%(0)s)"
  | _ => throw Failure.violated

/-- The rule for "any" and "all", which are the value itself for a number. -/
def quantifier (name : String) : Rule := fun id => do
  let first ← child id 0
  let number ← if ← isNumeric first then hasShape first .scalar else pure false
  if number then Emit.text "%(0)s" else Emit.call name

def disjunction : Rule := fun id => do
  if (← count id) == 0 then Emit.text "()" else throw Failure.wrongSort

/-! ### Signals -/

def fft : Rule := fun id => do
  match ← children id with
  | [_] | [_, _] => Emit.call "arma::fft"
  | [signal, length, _] =>
    match ← shapeOf signal with
    | some .column | some .row => Emit.text "arma::fft(%(0)s, %(1)s)"
    | _ =>
      let kind ← kind length
      includeFile id "m2cpp"
      let function := "m2cpp::fft<" ++ (← typeOf signal).name ++ ">"
      if kind == .matrix then Emit.text (function ++ "(%(0)s, %(2)s)") else Emit.call function
  | _ =>
    error id "Number of args in 'fft' should be between 1 and 3"
    Emit.call "arma::fft"

def ifft : Rule := fun id => do
  if !(← isNumeric id) then Emit.call "ifft"
  else
    match ← children id with
    | [_] => Emit.text "arma::ifft(%(0)s)"
    | [_, _] => Emit.text "arma::ifft(%(0)s, %(1)s)"
    | [signal, length, _] =>
      match ← shapeOf signal with
      | some .column | some .row => Emit.text "arma::ifft(%(0)s, %(1)s)"
      | _ =>
        let kind ← kind length
        includeFile id "m2cpp"
        let function := "m2cpp::ifft<" ++ (← typeOf id).name ++ ">"
        if kind == .matrix then Emit.text (function ++ "(%(0)s, %(2)s)")
        else Emit.call function
    | _ =>
      error id "Number of args in 'ifft' should be between 1 and 3"
      if !(← hasElement (← child id 0) .complex) then
        warning id "Argument datatype of 'ifft' should be complex"
      Emit.call "arma::ifft"

/-- The rule for interpolation, which writes to the variable it is assigned to. -/
def interp1 : Rule := fun id => do
  let above ← parent id
  if (← kind above) == .assign then
    let target ← str (← child above 0)
    let method := if (← typeOf (← child id (-1))) == .string then ", %(3)s)" else ")"
    Emit.text ("arma::interp1(%(0)s, %(1)s, %(2)s, " ++ target ++ method)
  else Emit.call "arma::interp1"

def sum : Rule := fun id => do
  let first ← child id 0
  let array ← if ← isNumeric first then do pure !(← hasShape first .scalar) else pure false
  if !array then
    error id "sum over non-array"
    Emit.call "arma::sum"
  else if (← count id) == 2 then Emit.around "arma::sum(" ", " "-1)"
  else Emit.call "arma::sum"

/-! ### Times and messages -/

def tic : Rule := fun id => do
  Emit.wallClock id
  Emit.text "_timer.tic()"

/-- The rule for reading the timer; on a line of its own the time is shown. -/
def toc : Rule := fun id => do
  Emit.wallClock id
  if (← kind (← parent id)) != .statement then Emit.text "_time.toc()"
  else
    includeFile id "iostream"
    Emit.text "std::cout << \"Ellapsed time = \" << _timer.toc() << std::endl"

def disp : Rule := fun id => do
  includeFile id "iostream"
  match ← children id with
  | [only] =>
    let array ← if ← isNumeric only then do pure !(← hasShape only .scalar) else pure false
    if array then Emit.text "%(0)s.print()" else Emit.text "std::cout << %(0)s << std::endl"
  | _ =>
    error id "disp should take one argument"
    Emit.around "std::cout << " "<< " " << std::endl"

def returnName : Rule := fun id => do
  let func ← func id
  if (← backend func) == .funcReturns then Emit.text "return"
  else Emit.text ("return " ++ (← str (← child func 0)))

/-! ### Selection -/

def reservedVar? : String → Option Rule
  | "pi" => some fun _ => Emit.text "datum::pi"
  | "true" | "eye" => some fun _ => Emit.text "1"
  | "false" => some fun _ => Emit.text "0"
  | "inf" | "Inf" => some fun _ => Emit.text "datum::inf"
  | "nan" | "NaN" => some fun _ => Emit.text "datum::nan"
  | "return" => some returnName
  | "rand" => some fun _ => Emit.text "arma::randu<arma::vec>(1)"
  | "clear" => some fun _ => Emit.text "// clear"
  | "close" => some fun _ => Emit.text "// close"
  | "clc" => some fun _ => Emit.text "// clc"
  | "tic" => some tic
  | "toc" => some toc
  | "hold" => some hold
  | "clf" => some (plot "clf")
  | "cla" => some (plot "cla")
  | "colorbar" => some (plot "colorbar")
  | "grid" => some grid
  | _ => none

def reservedCall? : String → Option Rule
  | "abs" => some abs
  | "sqrt" => some sqrt
  | "and" => some fun _ => Emit.around "(" "*" ")"
  | "or" => some disjunction
  | "not" => some negation
  | "any" => some (quantifier "any")
  | "all" => some (quantifier "all")
  | "isequal" => some fun _ => Emit.text "%(0)s == %(1)s"
  | "size" => some size
  | "chol" => some fun _ => Emit.around "" ", " ""
  | "length" => some fun id => do
    includeFile id "m2cpp"
    Emit.text "m2cpp::length(%(0)s)"
  | "min" => some smallest
  | "max" => some largest
  | "eye" => some eye
  | "transpose" => some fun _ => Emit.text "arma::strans(%(0)s)"
  | "ctranspose" => some fun _ => Emit.text "arma::trans(%(0)s)"
  | "flipud" => some fun _ => Emit.text "arma::flipud(%(0)s)"
  | "ones" => some (filled "ones")
  | "zeros" => some (filled "zeros")
  | "round" => some round
  | "rand" => some rand
  | "floor" => some floor
  | "clear" => some fun _ => Emit.call "// clear"
  | "close" => some fun _ => Emit.call "// clc"
  | "clc" => some fun _ => Emit.text "// clc"
  | "_conv_to" => some fun _ => Emit.text "conv_to<%(type)s>::from(%(0)s)"
  | "_reshape" => some fun _ => Emit.call "%(value)s"
  | "nextpow2" => some (helper "nextpow2")
  | "fft" => some fft
  | "ifft" => some ifft
  | "hankel" => some (helper "hankel")
  | "interp1" => some interp1
  | "linspace" => some fun _ => Emit.call "arma::linspace<%(type)s>"
  | "sum" => some sum
  | "conj" => some fun _ => Emit.call "arma::conj"
  | "imag" => some fun _ => Emit.call "arma::imag"
  | "real" => some fun _ => Emit.call "arma::real"
  | "tic" => some tic
  | "toc" => some toc
  | "diag" => some fun _ => Emit.call "diagmat"
  | "disp" => some disp
  | "error" => some fun id => do
    includeFile id "iostream"
    Emit.around "std::cerr << " "<< " " << std::endl"
  | "convmtx" => some (helper "convmtx")
  | "conv2" => some (helper "conv2<%(type)s>")
  | name => plotRule? name

def reservedAssign? : String → Option Rule
  | "size" => some assignSize
  | "chol" => some assignChol
  | "interp1" => some fun _ => Emit.text "%(1)s ;"
  | _ => none

/-- The rules for assignments of what reserved functions give to several variables. -/
def reservedAssigns? : String → Option Rule
  | "size" => some assignSizes
  | "chol" => some assignChols
  | "min" => some (assignExtreme "min" fun id => do child (← child id 2) 0)
  | "max" => some (assignExtreme "max" fun id => child id (-1))
  | _ => none

def reservedRule? (kind : Kind) (name : String) : Option Rule :=
  match kind with
  | .var => (reservedVar? name).or (some fun _ => Emit.text "%(name)s")
  | .get => reservedCall? name
  | .assign => (reservedAssign? name).or (some assign)
  | .assigns => reservedAssigns? name
  | _ => none

end ArmaGen.Rule
