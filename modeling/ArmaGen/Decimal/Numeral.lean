import ArmaGen.Decimal.Double
import ArmaGen.Text.CharClass
import ArmaGen.Text.Runs

/-!
# Numerals

`readInteger?` reads an integer and `readNumeral?` a decimal number with an optional fraction and
exponent. Digits can be those of any script, and single underscores may stand between them.
-/

namespace ArmaGen

/-! ### Digits -/

def digitsToNat (digits : List Char) : Nat :=
  digits.foldl (fun value c => 10 * value + (c.toNat - '0'.toNat)) 0

/-- The number that digits spell, if there are any and nothing else is there. -/
def readNatural? (text : List Char) : Option Nat :=
  if text.isEmpty || !text.all isDigit then none else some (digitsToNat text)

def splitSign : List Char → Bool × List Char
  | '-' :: rest => (true, rest)
  | '+' :: rest => (false, rest)
  | text => (false, text)

def readSigned? (text : List Char) : Option Int :=
  let (negative, rest) := splitSign text
  (readNatural? rest).map fun n => if negative then -(n : Int) else n

/-! ### Spelling -/

/-- A character of a numeral in ASCII: a digit of any script becomes one of the ten digits, and
white space outside ASCII a blank. -/
def plainChar (c : Char) : Char :=
  if c.toNat < 128 then c
  else if isSpace c then ' '
  else match digitValue? c with
    | some digit => Char.ofNat ('0'.toNat + digit)
    | none => c

def isPadding (c : Char) : Bool :=
  c == ' ' || ('\t' ≤ c && c ≤ '\r')

def trimPadding (text : List Char) : List Char :=
  ((text.dropWhile isPadding).reverse.dropWhile isPadding).reverse

/-- The text without the underscores between digits; nothing if an underscore stands elsewhere.
The flag tells that a digit came before. -/
def ungroup? (afterDigit : Bool) : List Char → Option (List Char)
  | [] => some []
  | '_' :: c :: rest =>
    if afterDigit && isDigit c then (ungroup? true rest).map (c :: ·) else none
  | c :: rest => if c == '_' then none else (ungroup? (isDigit c) rest).map (c :: ·)

/-- A numeral in its plain spelling: in ASCII, and without padding and underscores. -/
def plainNumeral? (text : String) : Option (List Char) :=
  ungroup? false (trimPadding (text.toList.map plainChar))

/-! ### Integers -/

def maxDigits : Nat := 4300

def readInteger? (text : String) : Option Int := do
  let plain ← plainNumeral? text
  if maxDigits < (splitSign plain).2.length then none else readSigned? plain

/-! ### Decimal numbers -/

structure Numeral where
  digits : Nat
  exponent : Int
deriving Repr, DecidableEq

/-- The exponent of a numeral: none, or a mark and an integer. -/
def readExponent? : List Char → Option Int
  | [] => some 0
  | c :: rest => if c == 'e' || c == 'E' then readSigned? rest else none

def splitFraction : List Char → List Char × List Char
  | '.' :: rest => (rest.takeWhile isDigit, rest.dropWhile isDigit)
  | text => ([], text)

def readUnsigned? (text : List Char) : Option Numeral := do
  let whole := text.takeWhile isDigit
  let (fraction, rest) := splitFraction (text.dropWhile isDigit)
  if whole.isEmpty && fraction.isEmpty then none
  else
    let exponent ← readExponent? rest
    some ⟨digitsToNat (whole ++ fraction), exponent - fraction.length⟩

inductive Magnitude where
  | finite (x : Double)
  | infinite
deriving Repr, DecidableEq

def Magnitude.round (num den : Nat) : Magnitude :=
  match Double.round num den with
  | some x => .finite x
  | none => .infinite

/-- The double nearest to a numeral. Exponents that lead far out of range are not worked out. -/
def Numeral.magnitude (n : Numeral) : Magnitude :=
  let size : Int := (Nat.toDigits 10 n.digits).length + n.exponent
  if n.digits == 0 || size < -400 then .finite ⟨0, Double.minExponent⟩
  else if 400 < size then .infinite
  else if 0 ≤ n.exponent then .round (n.digits * Nat.pow 10 n.exponent.toNat) 1
  else .round n.digits (Nat.pow 10 (-n.exponent).toNat)

inductive DecimalValue where
  | signed (negative : Bool) (magnitude : Magnitude)
  | notANumber
deriving Repr, DecidableEq

/-- The decimal number that a text spells: a numeral after an optional sign, or a word for what is
infinite or no number. -/
def readNumeral? (text : String) : Option DecimalValue := do
  let (negative, rest) := splitSign (← plainNumeral? text)
  match String.ofList (rest.map Char.toLower) with
  | "inf" | "infinity" => some (.signed negative .infinite)
  | "nan" => some .notANumber
  | _ => some (.signed negative (← readUnsigned? rest).magnitude)

end ArmaGen
