import ArmaGen.Supplement.Table
import ArmaGen.Text.Quoted
import ArmaGen.Text.Replacement

/-!
# Literals

Supplements are files of assignments of literals: texts, whole numbers, lists and tables. A text
stands in single or double quotes, or in three of them if it goes over several lines; a backslash in
it starts an escape.
-/

namespace ArmaGen

inductive Literal where
  | string (text : String)
  | number (n : Int)
  | truth (b : Bool)
  | nothing
  | list (items : List Literal)
  | table (entries : List (String × Literal))
deriving Repr, Inhabited

namespace Literal

/-! ### Writing -/

mutual

def render : Literal → String
  | .string s => quoted s
  | .number n => toString n
  | .truth b => if b then "True" else "False"
  | .nothing => "None"
  | .list items => "[" ++ joinWith ", " (renderItems items) ++ "]"
  | .table entries => "\x7b" ++ joinWith ", " (renderEntries entries) ++ "\x7d"

def renderItems : List Literal → List String
  | [] => []
  | item :: rest => render item :: renderItems rest

def renderEntries : List (String × Literal) → List String
  | [] => []
  | (key, value) :: rest => (quoted key ++ ": " ++ render value) :: renderEntries rest

end

/-! ### Texts in quotes -/

def hexValue? (c : Char) : Option Nat :=
  if '0' ≤ c && c ≤ '9' then some (c.toNat - 48)
  else if 'a' ≤ c && c ≤ 'f' then some (c.toNat - 87)
  else if 'A' ≤ c && c ≤ 'F' then some (c.toNat - 55)
  else none

def hexChar? (width : Nat) (text : List Char) : Option (List Char × List Char) := do
  let digits ← (text.take width).mapM hexValue?
  if digits.length == width then
    let code := digits.foldl (fun n digit => 16 * n + digit) 0
    if code < 0x110000 then some ([Char.ofNat code], text.drop width) else none
  else none

def escape? : List Char → Option (List Char × List Char)
  | [] => none
  | '\n' :: rest => some ([], rest)
  | 'x' :: rest => hexChar? 2 rest
  | 'u' :: rest => hexChar? 4 rest
  | 'U' :: rest => hexChar? 8 rest
  | 'N' :: _ => none
  | c :: rest =>
    if Replacement.isOctal c then
      let digits := ((c :: rest).take 3).takeWhile Replacement.isOctal
      some ([Char.ofNat (Replacement.octalValue digits)], (c :: rest).drop digits.length)
    else if c == '\'' || c == '"' then some ([c], rest)
    else match Replacement.control? c with
      | some control => some ([control], rest)
      | none => some (['\\', c], rest)

def quotedSteps (quotes : List Char) : Nat → List Char → Option (List Char × List Char)
  | 0, _ => none
  | _, [] => none
  | n + 1, c :: rest => do
    if quotes.isPrefixOf (c :: rest) then some ([], (c :: rest).drop quotes.length)
    else if c == '\\' then
      let (piece, rest) ← escape? rest
      let (text, rest) ← quotedSteps quotes n rest
      some (piece ++ text, rest)
    else if c == '\n' && quotes.length == 1 then none
    else
      let (text, rest) ← quotedSteps quotes n rest
      some (c :: text, rest)

def quotedText? (text : List Char) : Option (String × List Char) := do
  match text with
  | quote :: rest =>
    if quote != '\'' && quote != '"' then none
    else
      let triple := [quote, quote].isPrefixOf rest
      let quotes := if triple then [quote, quote, quote] else [quote]
      let rest := if triple then rest.drop 2 else rest
      let (found, rest) ← quotedSteps quotes (rest.length + 1) rest
      some (String.ofList found, rest)
  | [] => none

/-! ### Values -/

def isSeparator (c : Char) : Bool :=
  c == ' ' || c == '\t' || c == '\n' || c == '\r' || c == '\x0c'

def skipSteps : Nat → List Char → List Char
  | 0, text => text
  | n + 1, text =>
    match text.dropWhile isSeparator with
    | '#' :: rest => skipSteps n (rest.dropWhile (· != '\n'))
    | rest => rest

def skip (text : List Char) : List Char :=
  skipSteps (text.length + 1) text

def word? (text : List Char) : Option (Literal × List Char) :=
  let isWordChar := fun (c : Char) => isWord c || c == '-' || c == '.'
  let rest := text.dropWhile isWordChar
  match String.ofList (text.takeWhile isWordChar) with
  | "None" => some (.nothing, rest)
  | "True" => some (.truth true, rest)
  | "False" => some (.truth false, rest)
  | word => (readSigned? word.toList).map fun n => (.number n, rest)

mutual

def valueSteps : Nat → List Char → Option (Literal × List Char)
  | 0, _ => none
  | n + 1, text =>
    match skip text with
    | '\x7b' :: rest => do
      let (entries, rest) ← entriesSteps n rest
      some (.table entries, rest)
    | '[' :: rest => do
      let (items, rest) ← itemsSteps n ']' rest
      some (.list items, rest)
    | '(' :: rest => do
      let (items, rest) ← itemsSteps n ')' rest
      some (.list items, rest)
    | text =>
      match text with
      | '\'' :: _ | '"' :: _ => do
        let (found, rest) ← quotedText? text
        some (.string found, rest)
      | _ => word? text

def itemsSteps : Nat → Char → List Char → Option (List Literal × List Char)
  | 0, _, _ => none
  | n + 1, close, text =>
    match skip text with
    | [] => none
    | c :: rest => do
      if c == close then some ([], rest)
      else
        let (item, rest) ← valueSteps n (c :: rest)
        match skip rest with
        | ',' :: rest =>
          let (items, rest) ← itemsSteps n close rest
          some (item :: items, rest)
        | d :: rest => if d == close then some ([item], rest) else none
        | [] => none

def entriesSteps : Nat → List Char → Option (List (String × Literal) × List Char)
  | 0, _ => none
  | n + 1, text =>
    match skip text with
    | '\x7d' :: rest => some ([], rest)
    | text => do
      let (key, rest) ← quotedText? text
      match skip rest with
      | ':' :: rest =>
        let (value, rest) ← valueSteps n rest
        match skip rest with
        | ',' :: rest =>
          let (entries, rest) ← entriesSteps n rest
          some ((key, value) :: entries, rest)
        | '\x7d' :: rest => some ([(key, value)], rest)
        | _ => none
      | _ => none

end

def read? (text : List Char) : Option (Literal × List Char) :=
  valueSteps (2 * text.length + 2) text

/-! ### Files -/

/-- The text after the end of its first line, if nothing but blanks and a comment stand there. -/
def lineRest? (text : List Char) : Option (List Char) :=
  let rest := text.dropWhile fun c => c == ' ' || c == '\t' || c == '\x0c' || c == '\r'
  match rest with
  | [] => some []
  | '\n' :: rest => some rest
  | '#' :: rest => some ((rest.dropWhile (· != '\n')).drop 1)
  | _ => none

def assignmentsSteps : Nat → List Char → Option (Table Literal)
  | 0, _ => none
  | _, [] => some []
  | n + 1, text =>
    match lineRest? text with
    | some rest => assignmentsSteps n rest
    | none => do
      let name := text.takeWhile isWord
      match (text.dropWhile isWord).dropWhile (· == ' ') with
      | '=' :: rest =>
        if name.isEmpty then none
        else
          let (value, rest) ← read? (rest.dropWhile (· == ' '))
          let others ← assignmentsSteps n (← lineRest? rest)
          some ((String.ofList name, value) :: others)
      | _ => none

/-- The assignments of a file; none if it does not consist of assignments of literals. -/
def readAssignments? (text : String) : Option (Table Literal) :=
  assignmentsSteps (text.length + 2) text.toList

/-! ### Literals as values -/

def text? : Literal → Option String
  | .string s => some s
  | _ => none

def number? : Literal → Option Int
  | .number n => some n
  | _ => none

/-- The table that a literal is; an empty list counts as one. -/
def table? : Literal → Option (Table Literal)
  | .table entries => some entries
  | .list [] => some []
  | _ => none

def texts? : Literal → Option (List String)
  | .list items => items.mapM text?
  | .table entries => some (entries.map (·.1))
  | _ => none

end Literal

end ArmaGen
