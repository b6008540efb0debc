import ArmaGen.Decimal.Numeral
import ArmaGen.Text.Words

/-!
# Decimals

`shortest` gives the fewest digits that read back as a double, and of these the nearest ones.
`decimalText` writes a magnitude with them: positionally if the point lies near the digits, else
with an exponent. Whole numbers can also be written as real ones with a given number of digits,
which are rounded to the nearest, and halves to the even neighbour.
-/

namespace ArmaGen

/-- The digits of a decimal number and the place of its point, counted from the front. -/
structure Decimal where
  digits : List Char
  point : Int
deriving Repr, DecidableEq

/-- The least number of places by which a ratio below one is to be moved to reach one. -/
def placesToOne (num den : Nat) : Nat → Nat
  | 0 => 0
  | n + 1 => if den ≤ num then 0 else placesToOne (10 * num) den n + 1

def pointOf (num den : Nat) : Int :=
  if den ≤ num then (Nat.toDigits 10 (num / den)).length
  else 1 - (placesToOne num den 400 : Int)

def shift (num den : Nat) (places : Int) : Nat × Nat :=
  if 0 ≤ places then (num * Nat.pow 10 places.toNat, den)
  else (num, den * Nat.pow 10 (-places).toNat)

def readsBack (x : Double) (n : Nat) (places : Int) : Bool :=
  let (num, den) := shift n 1 places
  Double.round num den == some x

/-- The number of `n` digits, moved by some places, that reads back as a double: the nearer one if
both neighbours of the value do. -/
def neighbour? (x : Double) (num den : Nat) (places : Int) : Option Nat :=
  let (a, b) := shift num den places
  let down := a / b
  match readsBack x down (-places), readsBack x (down + 1) (-places) with
  | true, true => some (if 2 * (a % b) < b || (2 * (a % b) == b && down % 2 == 0) then down
      else down + 1)
  | true, false => some down
  | false, true => some (down + 1)
  | false, false => none

/-- The fewest digits that read back, with at least `used` and at most `used + n` of them. -/
def fewest (x : Double) (num den : Nat) (point : Int) : Nat → Nat → Nat × Int
  | _, 0 => (0, 0)
  | used, n + 1 =>
    match neighbour? x num den (used - point) with
    | some found => (found, point - used)
    | none => fewest x num den point (used + 1) n

def dropZeros (digits : List Char) : List Char :=
  (digits.reverse.dropWhile (· == '0')).reverse

def shortest (x : Double) : Decimal :=
  let (num, den) := x.ratio
  let (found, places) := fewest x num den (pointOf num den) 1 17
  let digits := Nat.toDigits 10 found
  ⟨dropZeros digits, digits.length + places⟩

def exponentText (exponent : Int) : String :=
  let power := toString exponent.natAbs
  (if exponent < 0 then "e-" else "e+") ++ (if power.length < 2 then "0" ++ power else power)

/-- A decimal written out, with an exponent if the point lies far from the digits. -/
def Decimal.text (d : Decimal) : String :=
  let zeros := fun (n : Int) => List.replicate n.toNat '0'
  let size : Int := d.digits.length
  if -4 < d.point && d.point ≤ 16 then
    String.ofList <|
      if d.point ≤ 0 then '0' :: '.' :: zeros (-d.point) ++ d.digits
      else if size ≤ d.point then d.digits ++ zeros (d.point - size) ++ ['.', '0']
      else d.digits.take d.point.toNat ++ '.' :: d.digits.drop d.point.toNat
  else
    let front := match d.digits with
      | c :: [] => String.ofList [c]
      | c :: rest => String.ofList (c :: '.' :: rest)
      | [] => ""
    front ++ exponentText (d.point - 1)

def Magnitude.text : Magnitude → String
  | .infinite => "inf"
  | .finite x => if x.mantissa == 0 then "0.0" else (shortest x).text

def DecimalValue.lessOneText : DecimalValue → String
  | .notANumber => "nan"
  | .signed false .infinite => "inf"
  | .signed true .infinite => "-inf"
  | .signed true (.finite x) =>
    let (num, den) := x.ratio
    "-" ++ (Magnitude.round (num + den) den).text
  | .signed false (.finite x) =>
    let (num, den) := x.ratio
    if den ≤ num then (Magnitude.round (num - den) den).text
    else "-" ++ (Magnitude.round (den - num) den).text

/-! ### Whole numbers with a given number of digits -/

def nearestWhole? (n : Nat) : Option Nat :=
  (Double.round n 1).map fun x =>
    let (num, den) := x.ratio
    num / den

/-- The first `count` digits of a number, rounded, and the power of ten of the first one. -/
def significant (count n : Nat) : List Char × Nat :=
  let digits := Nat.toDigits 10 n
  if digits.length ≤ count then
    (digits ++ List.replicate (count - digits.length) '0', digits.length - 1)
  else
    let places := digits.length - count
    let rounded := Nat.toDigits 10 (Double.roundRatio n (Nat.pow 10 places))
    (rounded.take count, rounded.length + places - 1)

/-- Digits before and after a point. Without digits after it the point is left out, unless it is
kept. -/
def pointText (kept : Bool) (before after : List Char) : String :=
  if after.isEmpty && !kept then String.ofList before
  else String.ofList (before ++ '.' :: after)

/-- A whole number with some places after the point; `kept` keeps a point at the end. -/
def fixedText (kept : Bool) (places n : Nat) : String :=
  pointText kept (Nat.toDigits 10 n) (List.replicate places '0')

/-- A whole number with one digit before the point, some places after it, and an exponent. -/
def scientificText (kept : Bool) (places n : Nat) : String :=
  let (digits, power) := significant (places + 1) n
  pointText kept (digits.take 1) (digits.drop 1) ++ exponentText power

/-- A whole number with `count` digits, at least one, and an exponent if there are digits beyond.
Zeros at the end of the places are left out, unless the point is kept. -/
def generalText (kept : Bool) (count n : Nat) : String :=
  let count := max count 1
  let (digits, power) := significant count n
  let places := fun (after : List Char) => if kept then after else dropZeros after
  if power < count then
    pointText kept (digits.take (power + 1)) (places (digits.drop (power + 1)))
  else pointText kept (digits.take 1) (places (digits.drop 1)) ++ exponentText power

end ArmaGen
