import ArmaGen.Supplement.Table
import ArmaGen.Text.Replacement

/-!
# Lines with their own output

A line with its own output is marked in the source text before it is read: three underscores, the
line, three underscores and the output, in which three underscores stand for each line end.
-/

namespace ArmaGen.Verbatim

def mark : List Char :=
  ['_', '_', '_']

/-- The number of characters before the last place where a word stands in the first line of a text.
-/
def lastPlace? (word : List Char) (passed : Nat) : List Char → Option Nat
  | [] => if word.isEmpty then some passed else none
  | c :: rest =>
    let here := if word.isPrefixOf (c :: rest) then some passed else none
    if c == '\n' then here
    else (lastPlace? word (passed + 1) rest).or here

def isInLine (c : Char) : Bool :=
  c != '\n'

def passagesSteps (word : List Char) : Nat → List Char → List (List Char)
  | 0, _ => []
  | n + 1, text =>
    match lastPlace? word 0 text with
    | some place =>
      let stop := place + word.length
      let rest := text.drop stop
      let passage := text.take stop ++ rest.takeWhile isInLine
      let after := rest.dropWhile isInLine
      if passage.isEmpty then
        match after with
        | [] => [passage]
        | _ :: after => passage :: passagesSteps word n after
      else passage :: passagesSteps word n after
    | none =>
      match text.dropWhile isInLine with
      | [] => []
      | _ :: after => passagesSteps word n after

def passages (word text : List Char) : List (List Char) :=
  passagesSteps word (2 * text.length + 2) text

/-- Marks the passages with a word, going over the different ones in some order. -/
def markWord (order : List (List Char) → List (List Char)) (word output text : List Char) :
    Except Failure (List Char) :=
  let output := mark ++ List.intercalate mark (splitAt ['\n'] output)
  (order (passages word text)).foldlM (fun text passage =>
    Replacement.replaceAll passage (mark ++ passage ++ output) text) text

def markLinesIn (order : List (List Char) → List (List Char)) (table : Table String)
    (text : String) : Except Failure String := do
  let marked ← table.foldlM (fun text (word, output) =>
    markWord order word.toList output.toList text) text.toList
  return String.ofList marked

def markLines : Table String → String → Except Failure String :=
  markLinesIn List.eraseDups

end ArmaGen.Verbatim
