/-!
# Classes of characters

A class of characters is given by the lengths of its runs: how many code points lie in turn
outside and inside of it, from zero on. Long lists of numbers are written to base 26: the
last digit of each number is a small letter, the digits before it are capital letters, and anything
else is passed over. White space is what Unicode counts as such, together with the separators of the
control characters. Decimal digits stand in many scripts, always ten in a row with the values 0 to
9.
-/

namespace ArmaGen

/-- Numbers to base 26, the first of them with `n` as what its digits so far stand for. -/
def readRunsFrom (n : Nat) : List Char → List Nat
  | [] => []
  | c :: rest =>
    if c.isLower then (26 * n + (c.toNat - 'a'.toNat)) :: readRunsFrom 0 rest
    else if c.isUpper then readRunsFrom (26 * n + (c.toNat - 'A'.toNat)) rest
    else readRunsFrom n rest

def readRuns (text : String) : List Nat :=
  readRunsFrom 0 text.toList

example : readRuns "fBeBAy" = [5, 30, 700] := by decide

def inRuns : List Nat → Nat → Bool
  | outside :: inside :: runs, code =>
    if code < outside + inside then outside ≤ code else inRuns runs (code - (outside + inside))
  | _, _ => false

def spaceRuns : List Nat := [
  9, 5, 14, 5, 100, 1, 26, 1, 5599, 1, 2431, 11, 29, 2, 5, 1, 47, 1, 4000, 1
]

def isSpace (c : Char) : Bool :=
  inRuns spaceRuns c.toNat

def digitZeros : List Nat := [
  48, 1632, 1776, 1984, 2406, 2534, 2662, 2790, 2918, 3046, 3174, 3302, 3430, 3558, 3664, 3792,
  3872, 4160, 4240, 6112, 6160, 6470, 6608, 6784, 6800, 6992, 7088, 7232, 7248, 42528, 43216,
  43264, 43472, 43504, 43600, 44016, 65296, 66720, 68912, 69734, 69872, 69942, 70096, 70384,
  70736, 70864, 71248, 71360, 71472, 71904, 72016, 72784, 73040, 73120, 92768, 92864, 93008,
  120782, 120792, 120802, 120812, 120822, 123200, 123632, 125264, 130032
]

def digitValue? (c : Char) : Option Nat :=
  (digitZeros.find? fun start => start ≤ c.toNat && c.toNat < start + 10).map (c.toNat - ·)

def digitsValue (digits : List Char) : Nat :=
  digits.foldl (fun n c => 10 * n + (digitValue? c).getD 0) 0

end ArmaGen
