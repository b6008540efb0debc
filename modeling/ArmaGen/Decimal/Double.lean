/-!
# Doubles as exact numbers

A `Double` is a magnitude `mantissa * 2 ^ exponent` with a mantissa of at most 53 bits.
`Double.round` gives the one nearest to a ratio of natural numbers; of two that are equally near it
gives the one with the even mantissa.
-/

namespace ArmaGen

structure Double where
  mantissa : Nat
  exponent : Int
deriving Repr, DecidableEq, Inhabited

namespace Double

def minExponent : Int := -1074

def maxExponent : Int := 971

def scale (num den : Nat) (exponent : Int) : Nat × Nat :=
  if 0 ≤ exponent then (num, den * Nat.pow 2 exponent.toNat)
  else (num * Nat.pow 2 (-exponent).toNat, den)

def roundRatio (num den : Nat) : Nat :=
  let down := num / den
  let rest := num % den
  if 2 * rest < den || (2 * rest == den && down % 2 == 0) then down else down + 1

/-- The exponent at which a positive ratio has a quotient of 53 bits, or the least one. -/
def exponentOf (num den : Nat) : Int :=
  let guess : Int := (num.log2 : Int) - den.log2 - 52
  let (a, b) := scale num den guess
  max (if a / b < Nat.pow 2 52 then guess - 1 else guess) minExponent

/-- The double nearest to a ratio of natural numbers; nothing if it is too large. -/
def round (num den : Nat) : Option Double :=
  if num == 0 then some ⟨0, minExponent⟩
  else
    let exponent := exponentOf num den
    let (a, b) := scale num den exponent
    let mantissa := roundRatio a b
    let rounded : Double :=
      if mantissa == Nat.pow 2 53 then ⟨Nat.pow 2 52, exponent + 1⟩ else ⟨mantissa, exponent⟩
    if maxExponent < rounded.exponent then none else some rounded

def ratio (x : Double) : Nat × Nat :=
  if 0 ≤ x.exponent then (x.mantissa * Nat.pow 2 x.exponent.toNat, 1)
  else (x.mantissa, Nat.pow 2 (-x.exponent).toNat)

end Double

end ArmaGen
