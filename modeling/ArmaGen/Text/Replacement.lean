import ArmaGen.Decimal.Numeral
import ArmaGen.Failure
import ArmaGen.Text.Identifier
import ArmaGen.Text.Words

/-!
# Replacement texts

In a replacement text a backslash starts a control character, a character by its octal number, or a
reference to the text that is replaced. All other references are errors, and so are letters without
a meaning.
-/

namespace ArmaGen.Replacement

def isOctal (c : Char) : Bool :=
  '0' ≤ c && c ≤ '7'

def isDecimal (c : Char) : Bool :=
  '0' ≤ c && c ≤ '9'

def isLatin (c : Char) : Bool :=
  ('a' ≤ c && c ≤ 'z') || ('A' ≤ c && c ≤ 'Z')

def octalValue (digits : List Char) : Nat :=
  digits.foldl (fun n c => 8 * n + (c.toNat - '0'.toNat)) 0

def control? : Char → Option Char
  | 'a' => some '\x07'
  | 'b' => some '\x08'
  | 'f' => some '\x0c'
  | 'n' => some '\n'
  | 'r' => some '\r'
  | 't' => some '\t'
  | 'v' => some '\x0b'
  | '\\' => some '\\'
  | _ => none

/-- The text that a reference in angle brackets stands for, and the rest after it. Only the number
zero can be referred to. -/
def reference (whole : List Char) : List Char → Except Failure (List Char × List Char)
  | '<' :: text =>
    let name := text.takeWhile (· != '>')
    match text.dropWhile (· != '>') with
    | [] => .error .pattern
    | _ :: rest =>
      if isIdentifier name && rest != ['\\'] then .error .outside
      else if readInteger? (String.ofList name) == some 0 then .ok (whole, rest)
      else .error .pattern
  | _ => .error .pattern

def escape (whole : List Char) : List Char → Except Failure (List Char × List Char)
  | [] => .error .pattern
  | 'g' :: text => reference whole text
  | '0' :: text =>
    let digits := (text.take 2).takeWhile isOctal
    .ok ([Char.ofNat (octalValue digits % 256)], text.drop digits.length)
  | c :: text =>
    if isDecimal c then
      match text with
      | d :: e :: rest =>
        if [c, d, e].all isOctal && octalValue [c, d, e] < 256 then
          .ok ([Char.ofNat (octalValue [c, d, e])], rest)
        else .error .pattern
      | _ => .error .pattern
    else match control? c with
      | some control => .ok ([control], text)
      | none => if isLatin c then .error .pattern else .ok (['\\', c], text)

def expandSteps (whole : List Char) : Nat → List Char → Except Failure (List Char)
  | 0, text => .ok text
  | _ + 1, [] => .ok []
  | n + 1, '\\' :: text => do
    let (piece, rest) ← escape whole text
    return piece ++ (← expandSteps whole n rest)
  | n + 1, c :: text => do
    return c :: (← expandSteps whole n text)

def expand (whole template : List Char) : Except Failure (List Char) :=
  expandSteps whole template.length template

def interleave (new : List Char) : List Char → List Char
  | [] => new
  | c :: rest => new ++ c :: interleave new rest

/-- Puts a replacement text in every place where a text stands; the empty text stands between all
characters. -/
def replaceAll (old template text : List Char) : Except Failure (List Char) := do
  let new ← expand old template
  if old.isEmpty then return interleave new text
  else return List.intercalate new (splitAt old text)

end ArmaGen.Replacement
