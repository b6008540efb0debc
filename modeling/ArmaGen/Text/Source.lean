import ArmaGen.Failure
import ArmaGen.Text.CharClass

/-!
# Source text and positions

A `Source` is a text addressed by positions. Positions are integers, since scanners may pass the
start: a position below zero counts from the end of the text, and one that is still outside is the
failure `outside`. Spans `[a, b)` are clipped and never fail. `Source.report` words what is expected
at a position.
-/

namespace ArmaGen

abbrev Scan := Except Failure

structure Source where
  chars : Array Char
deriving Repr, DecidableEq, Inhabited

namespace Source

def ofString (text : String) : Source :=
  ⟨text.toList.toArray⟩

def size (s : Source) : Nat :=
  s.chars.size

def text (s : Source) : String :=
  String.ofList s.chars.toList

def at? (s : Source) (k : Int) : Option Char :=
  if 0 ≤ k then s.chars[k.toNat]?
  else if 0 ≤ k + s.size then s.chars[(k + s.size).toNat]?
  else none

def read (s : Source) (k : Int) : Scan Char :=
  match s.at? k with
  | some c => .ok c
  | none => .error .outside

/-- Whether the character at a position is in a class; outside of the text this fails. -/
def holds (s : Source) (p : Char → Bool) (k : Int) : Scan Bool := do
  return p (← s.read k)

/-- The end of a span, moved into the text: negative ends count from the end. -/
def clip (s : Source) (k : Int) : Nat :=
  if 0 ≤ k then min k.toNat s.size else (k + s.size).toNat

def span (s : Source) (a b : Int) : List Char :=
  (s.chars.extract (s.clip a) (s.clip b)).toList

def slice (s : Source) (a b : Int) : String :=
  String.ofList (s.span a b)

def reads (s : Source) (k : Int) (word : String) : Bool :=
  s.span k (k + word.length) == word.toList

/-- Whether a word stands at a position, and the character after it is in a class. -/
def readsThen (s : Source) (k : Int) (word : String) (p : Char → Bool) : Scan Bool :=
  if s.reads k word then s.holds p (k + word.length) else .ok false

def standsAt (s : Source) : List Char → Nat → Bool
  | [], _ => true
  | c :: rest, a => s.chars[a]? == some c && standsAt s rest (a + 1)

/-- The first of the `n` indices from `a` on at which characters stand. -/
def findIn (s : Source) (word : List Char) : Nat → Nat → Option Nat
  | 0, _ => none
  | n + 1, a => if s.standsAt word a then some a else findIn s word n (a + 1)

def find? (s : Source) (word : String) (a : Int) : Option Int :=
  let a := s.clip a
  (s.findIn word.toList (s.size - a) a).map Int.ofNat

def lineEnds (s : Source) (a b : Int) : Nat :=
  (s.span a b).count '\n'

/-- More steps than any scanner needs that moves one way through the text. -/
def steps (s : Source) : Nat :=
  2 * s.size + 4

/-- `skipSteps s p n k` passes characters of a class from `k` on, in at most `n` steps. -/
def skipSteps (s : Source) (p : Char → Bool) : Nat → Int → Scan Int
  | 0, _ => .error .endless
  | n + 1, k => do
    if p (← s.read k) then skipSteps s p n (k + 1) else return k

def skip (s : Source) (p : Char → Bool) (k : Int) : Scan Int :=
  s.skipSteps p s.steps k

def skipBlanks (s : Source) (k : Int) : Scan Int :=
  s.skip isBlank k

/-- `backSteps s p n k` passes characters of a class from `k` backwards, in at most `n` steps. -/
def backSteps (s : Source) (p : Char → Bool) : Nat → Int → Scan Int
  | 0, _ => .error .endless
  | n + 1, k => do
    if p (← s.read k) then backSteps s p n (k - 1) else return k

def backBlanks (s : Source) (k : Int) : Scan Int :=
  s.backSteps isBlank s.steps k

/-! ### Reports -/

def lineStart (s : Source) : Nat → Int → Scan Int
  | 0, k => .ok k
  | n + 1, k => do
    if 0 < k then
      if (← s.read k) == '\n' then return k else lineStart s n (k - 1)
    else return k

def lineStop (s : Source) : Nat → Int → Scan Int
  | 0, k => .ok k
  | n + 1, k => do
    if k < s.size then
      if (← s.read k) == '\n' then return k else lineStop s n (k + 1)
    else return k

def report (s : Source) (k : Int) (what : String) : Scan String := do
  let start ← s.lineStart s.steps (k - 1)
  let stop ← s.lineStop s.steps (k + 1)
  return "line " ++ toString (s.lineEnds 0 k + 1) ++ " in Matlab code:\n" ++
    s.slice start stop ++ "\n" ++ String.ofList (List.replicate (k - start).toNat ' ') ++ "^\n" ++
    "Expected: " ++ what

def expected {α : Type} (s : Source) (k : Int) (what : String) : Scan α := do
  throw (.malformed (← s.report k what))

end Source

end ArmaGen
