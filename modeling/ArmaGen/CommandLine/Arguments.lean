import ArmaGen.Decimal.Numeral
import ArmaGen.Failure
import ArmaGen.Text.Words

/-!
# Arguments of the command line

A command line names one file, or holds source text in its place. Switches have a letter and a name;
letters can be joined after one dash and names cut short as long as they stay unique. Two dashes end
the switches. Unknown switches and needless arguments are only refused at the end, so that a call
for help among them is still answered.
-/

namespace ArmaGen

structure Arguments where
  filename : String := ""
  tree : Bool := false
  treeFull : Bool := false
  suggest : Bool := false
  reset : Bool := false
  disp : Bool := false
  comments : Bool := false
  echo : Bool := false
  nargin : Bool := false
  line? : Option Int := none
deriving Repr, DecidableEq, Inhabited

inductive Switch where
  | tree
  | treeFull
  | suggest
  | reset
  | disp
  | comments
  | echo
  | nargin
  | line
  | help
deriving Repr, DecidableEq, Inhabited

namespace Switch

def all : List (Switch × Char × String) := [
  (.help, 'h', "help"), (.tree, 't', "tree"), (.treeFull, 'T', "tree-full"),
  (.suggest, 's', "suggest"), (.reset, 'r', "reset"), (.disp, 'd', "disp"),
  (.comments, 'c', "comments"), (.line, 'l', "line"), (.echo, 'o', "original"),
  (.nargin, 'n', "nargin")
]

def ofLetter? (letter : Char) : Option Switch :=
  (all.find? fun entry => entry.2.1 == letter).map (·.1)

/-- The switches whose names start with a text; a full name stands for itself alone. -/
def ofName (name : List Char) : List Switch :=
  match all.find? fun entry => entry.2.2.toList == name with
  | some entry => [entry.1]
  | none => (all.filter fun entry => name.isPrefixOf entry.2.2.toList).map (·.1)

end Switch

namespace Arguments

/-! ### Words -/

inductive Word where
  | plain (text : String)
  | letters (text : List Char)
  | named (switch : Switch) (value : Option String)
  | dashes
  | ambiguous
  | unknown
deriving Repr, DecidableEq, Inhabited

def isNegative : List Char → Bool
  | '-' :: rest =>
    let isDigit := fun c => (digitValue? c).isSome
    let digits := rest.takeWhile isDigit
    match rest.dropWhile isDigit with
    | [] => !digits.isEmpty
    | '.' :: fraction => !fraction.isEmpty && fraction.all isDigit
    | _ => false
  | _ => false

def plainOrUnknown (text : String) : Word :=
  if isNegative text.toList || text.toList.contains ' ' then .plain text else .unknown

/-- A switch by name, maybe cut short, maybe with an equals sign and a value. -/
def namedWord (text : String) (rest : List Char) : Word :=
  let name := rest.takeWhile (· != '=')
  let value := match rest.dropWhile (· != '=') with
    | _ :: value => some (String.ofList value)
    | [] => none
  match Switch.ofName name with
  | [switch] => .named switch value
  | [] => plainOrUnknown text
  | _ => .ambiguous

def word (text : String) : Word :=
  match text.toList with
  | ['-', '-'] => .dashes
  | '-' :: '-' :: rest => namedWord text rest
  | '-' :: letter :: rest =>
    if (Switch.ofLetter? letter).isSome then .letters (letter :: rest) else plainOrUnknown text
  | _ => .plain text

/-! ### Groups of switches -/

structure Group where
  switches : List Switch := []
  line : Bool := false
  value : Option String := none
  unknown : Bool := false
deriving Repr, DecidableEq, Inhabited

/-- The group of joined letters. The letter for the line takes what follows as its value; after
another letter more letters follow. -/
def letterGroup (group : Group) : List Char → Except Failure Group
  | [] => .ok group
  | letter :: rest =>
    match Switch.ofLetter? letter with
    | none => .ok { group with unknown := true }
    | some .line =>
      .ok { group with line := true, value := match rest with
        | [] => none
        | '=' :: value => some (String.ofList value)
        | value => some (String.ofList value) }
    | some switch =>
      match rest with
      | '=' :: _ | '-' :: _ => .error .usage
      | _ => letterGroup { group with switches := group.switches ++ [switch] } rest

/-- The group of a switch by name. Only the line takes a value. -/
def namedGroup (switch : Switch) (value : Option String) : Except Failure Group :=
  match switch, value with
  | .line, value => .ok { line := true, value }
  | switch, none => .ok { switches := [switch] }
  | _, some _ => .error .usage

/-- Sets a switch that takes no value; help is given at once. -/
def set (arguments : Arguments) : Switch → Except Failure Arguments
  | .tree => .ok { arguments with tree := true }
  | .treeFull => .ok { arguments with treeFull := true }
  | .suggest => .ok { arguments with suggest := true }
  | .reset => .ok { arguments with reset := true }
  | .disp => .ok { arguments with disp := true }
  | .comments => .ok { arguments with comments := true }
  | .echo => .ok { arguments with echo := true }
  | .nargin => .ok { arguments with nargin := true }
  | .help => .error .help
  | .line => .error .usage

def setLine (arguments : Arguments) (text : String) : Except Failure Arguments :=
  match readInteger? text with
  | some n => .ok { arguments with line? := some n }
  | none => .error .usage

/-! ### Command lines -/

inductive Place where
  | missing
  | here
  | passed
deriving Repr, DecidableEq, Inhabited

structure Progress where
  arguments : Arguments := {}
  place : Place := .missing
  refused : Bool := false
deriving Repr, DecidableEq, Inhabited

namespace Progress

def plain (progress : Progress) (text : String) : Progress :=
  if progress.place == .missing then
    { progress with arguments := { progress.arguments with filename := text }, place := .here }
  else { progress with refused := true }

def pass (progress : Progress) : Progress :=
  { progress with place := if progress.place == .here then .passed else progress.place }

def setGroup (progress : Progress) (group : Group) (line : Option String) :
    Except Failure Progress := do
  let arguments ← group.switches.foldlM set progress.arguments
  let arguments ← match line with
    | some text => arguments.setLine text
    | none => pure arguments
  return { progress.pass with arguments, refused := progress.refused || group.unknown }

def readPlain (progress : Progress) (rest : List String) : Progress :=
  let progress := { progress with refused := progress.refused || progress.place == .passed }
  rest.foldl plain progress

def result (progress : Progress) : Except Failure Arguments :=
  if progress.refused || progress.place == .missing then .error .usage
  else .ok progress.arguments

end Progress

def readFrom (progress : Progress) : List String → Except Failure Progress
  | [] => .ok progress
  | text :: rest => do
    let setGroup := fun (group : Group) =>
      if group.line && group.value.isNone then
        match rest with
        | [] => .error .usage
        | next :: rest =>
          match word next with
          | .plain line => do readFrom (← progress.setGroup group (some line)) rest
          | _ => .error .usage
      else do readFrom (← progress.setGroup group group.value) rest
    match word text with
    | .plain text => readFrom (progress.plain text) rest
    | .letters letters => setGroup (← letterGroup {} letters)
    | .named switch value => setGroup (← namedGroup switch value)
    | .dashes => return progress.readPlain rest
    | .ambiguous => .error .usage
    | .unknown => readFrom { progress.pass with refused := true } rest

/-- Reads a command line. It is refused if it asks for what does not exist, or names no file. -/
def read (line : List String) : Except Failure Arguments := do
  if (line.takeWhile (· != "--")).any fun text => word text == .ambiguous then throw .usage
  else (← readFrom {} line).result

end Arguments

end ArmaGen
