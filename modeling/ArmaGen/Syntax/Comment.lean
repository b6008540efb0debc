import ArmaGen.Syntax.Expression

/-!
# Comments, verbatim lines and commands

Comments, pragmas for loops, verbatim lines that carry their own emitted text, and the commands
`hold` and `grid`, whose arguments are words.
-/

namespace ArmaGen.Parse

/-! ### Comments -/

/-- Whether only blanks stand between a position and the line end before it. -/
def startsLine (cur : Int) : Parse Bool := do
  let s ← source
  return (← s.read (← s.backBlanks (cur - 1))) == '\n'

/-- A comment, kept if comments are: of a block of lines, of a line, or at the end of a line. -/
def comment (cur : Int) : Parse Int := do
  let s ← source
  if (← s.read cur) != '%' then expected cur "comment"
  else
    let stop ← s.commentEnd cur
    if !(← keepsComments) then return stop
    else
      progress cur "   Comment      " "misc.comment" cur stop
      let code? := some (s.slice cur (stop + 1))
      if (← s.read (cur + 1)) == '\x7b' then
        leaf { kind := .bcomment, code?, cur? := some cur,
               value := Kind.keptValue .bcomment (s.slice (cur + 2) (stop - 1)) }
      else
        let kind := if ← startsLine cur then Kind.lcomment else Kind.ecomment
        leaf { kind, code?, cur? := some cur, value := kind.keptValue (s.slice (cur + 1) stop) }
      return stop

/-- A pragma for the loop after it; gives its last position. Only the progress display keeps it. -/
def pragma (cur : Int) : Parse Int := do
  let s ← source
  if !s.reads cur "%%PARFOR" then expected cur "pragma_parfor"
  else
    let stop ← s.pragmaEnd (cur + 8)
    progress cur "   Pragma_for     " "misc.pragma_for" (cur + 9) stop
    if ← shows then
      leaf { kind := .pragmaFor, value := Kind.keptValue .pragmaFor (s.slice (cur + 9) stop),
             cur? := some cur }
    return stop

/-! ### Verbatim lines -/

/-- A verbatim line: after three underscores its name, after three more what is emitted for it. -/
def verbatim (cur : Int) : Parse Int := do
  let s ← source
  let stop ← s.verbatimEnd cur
  progress cur "   Verbatim     " "misc.verbatim" cur (stop + 1)
  let code := s.slice cur (stop + 1)
  match splitText "___" code with
  | _ :: name :: values =>
    leaf { kind := .verbatim, name, value := joinWith "\n" values, cur? := some cur,
           code? := some code }
    return stop
  | _ => fail .outside

/-! ### Commands -/

def commandWords : String → List String × Bool
  | "hold" => (["on", "off", "all"], false)
  | _ => (["on", "off", "minor"], true)

/-- The argument of a command at `k`, if it is one of the words; gives the position after it. -/
def commandArgument (positioned : Bool) (k : Int) : List String → Parse Int
  | [] => return k
  | word :: words => do
    if (← source).reads k word then
      leaf { kind := .string, value := word, cur? := if positioned then some k else none }
      return k + word.length
    else commandArgument positioned k words

/-- A command, called with a word or with a list in parentheses; gives the position to go on
from. -/
def commandCall (word : String) (start : Int) : Parse Int := do
  let s ← source
  let newline := (s.find? "\n" start).getD (-1)
  node { kind := .statement, cur? := some start, code? := some (s.slice start newline) } do
    let k ← s.skipBlanks (start + 4)
    if (← s.read k) == '(' then expression start none none
    else
      let (words, positioned) := commandWords word
      node { kind := .get, name := word, cur? := some start } (commandArgument positioned k words)

/-- A command at `start`; gives the position to go on from, or nothing if there is none. -/
def command (start : Int) : Parse (Option Int) := do
  let s ← source
  if s.reads start "hold" then return some (← commandCall "hold" start)
  else if s.reads start "grid" then return some (← commandCall "grid" start)
  else return none

end ArmaGen.Parse
