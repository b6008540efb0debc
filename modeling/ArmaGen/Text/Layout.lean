import ArmaGen.Failure
import ArmaGen.Text.Runs
import ArmaGen.Text.Words

/-!
# Layout of emitted code

Blanks and line ends around emitted text are removed, subtractions of one from a numeral are carried
out (`foldDecrements`), lines are indented by the braces that stand alone on a line, and runs of
empty lines are cut to one.
-/

namespace ArmaGen

/-! ### Edges -/

def isEdge (c : Char) : Bool :=
  c == '\n' || c == ' '

/-- The text without blanks and line ends at both ends. A text of nothing else has no first
character to stop at. -/
def stripEdges (text : String) : Except Failure String :=
  match text.toList with
  | [] => .ok text
  | cs =>
    match cs.dropWhile isEdge with
    | [] => .error .outside
    | cs => .ok (String.ofList (cs.reverse.dropWhile isEdge).reverse)

/-! ### Indentation -/

def closesBrace (line : String) : Bool :=
  line == "\x7d" || line == "\x7d ;" || line.toList.take 4 == "\x7d //".toList

def indentFrom : Int → List String → List String
  | _, [] => []
  | depth, line :: rest =>
    if closesBrace line then
      (blanks (2 * (depth - 1)).toNat ++ line) :: indentFrom (depth - 1) rest
    else if line == "\x7b" then
      (blanks (2 * depth).toNat ++ line) :: indentFrom (depth + 1) rest
    else (blanks (2 * depth).toNat ++ line) :: indentFrom depth rest

def indentLines (text : String) : String :=
  joinWith "\n" (indentFrom 0 (splitText "\n" text))

/-! ### Decrements -/

structure Decrement where
  passage : List Char
  lead : Char
  value : Int
deriving Repr, DecidableEq, Inhabited

/-- The decrement at the start of a text: a lead, digits, perhaps `signed`, then `-1` that no
product or quotient takes up. -/
def decrementAt? (leads : String) (signed : Bool) : List Char → Option Decrement
  | [] => none
  | lead :: rest =>
    if !leads.toList.contains lead then none
    else
      let sign := if signed && rest.head? == some '-' then ['-'] else []
      let digits := (rest.drop sign.length).takeWhile fun c => (digitValue? c).isSome
      if digits.isEmpty then none
      else
        match rest.drop (sign.length + digits.length) with
        | '-' :: '1' :: after =>
          if after.head? == some '*' || after.head? == some '/' then none
          else
            let value : Int := digitsValue digits
            some ⟨lead :: sign ++ digits ++ ['-', '1'], lead,
              if sign.isEmpty then value else -value⟩
        | _ => none

/-- The decrements of a text from left to right; `skip` characters belong to the last one. -/
def decrements (leads : String) (signed : Bool) : Nat → List Char → List Decrement
  | _, [] => []
  | skip + 1, _ :: rest => decrements leads signed skip rest
  | 0, c :: rest =>
    match decrementAt? leads signed (c :: rest) with
    | some found => found :: decrements leads signed (found.passage.length - 1) rest
    | none => decrements leads signed 0 rest

def replacePassage (old new : List Char) (text : List Char) : List Char :=
  List.intercalate new (splitAt old text)

/-- The outcome of a decrement after an opening bracket, a comma or a blank. -/
def Decrement.plain (d : Decrement) : List Char :=
  d.lead :: (toString (d.value - 1)).toList

/-- The outcome of a decrement after a sign or a blank: a zero disappears together with its sign. -/
def Decrement.signed (d : Decrement) : List Char :=
  let value := if d.lead == '-' then d.value + 1 else d.value - 1
  if value == 0 then [] else d.lead :: (toString value).toList

/-- Carries out subtractions of one, going over the different ones in some order. -/
def foldDecrementsIn (order : List Decrement → List Decrement) (text : String) : String :=
  let cs := text.toList
  let cs := (order (decrements " ,([" true 0 cs)).foldl
    (fun cs d => replacePassage d.passage d.plain cs) cs
  let cs := (order (decrements "+- " false 0 cs)).foldl
    (fun cs d => replacePassage d.passage d.signed cs) cs
  String.ofList (replacePassage ['+', '-'] ['-'] cs)

def foldDecrements : String → String :=
  foldDecrementsIn List.eraseDups

/-! ### Empty lines -/

/-- Cuts runs of line ends, with blanks between them, to two. `inside` tells that the last
characters belong to such a run. -/
def squeezeChars : Bool → List Char → List Char
  | _, [] => []
  | true, c :: rest => if isEdge c then squeezeChars true rest else c :: squeezeChars false rest
  | false, c :: rest =>
    if c == '\n' && (rest.dropWhile (· == ' ')).head? == some '\n' then
      '\n' :: '\n' :: squeezeChars true rest
    else c :: squeezeChars false rest

def squeezeLines (text : String) : String :=
  String.ofList (squeezeChars false text.toList)

def finish (text : String) : Except Failure String := do
  return indentLines (foldDecrements (← stripEdges (showPercent text)))

end ArmaGen
