import ArmaGen.Rule.Array
import ArmaGen.Rule.Expression
import ArmaGen.Rule.Function
import ArmaGen.Rule.Program
import ArmaGen.Rule.Record
import ArmaGen.Rule.Reserved

/-!
# Selecting rules
-/

namespace ArmaGen

namespace Rule

open Edit

/-- The rules that most datatypes share: assignments, variables, elements and fields. -/
def shared? : Kind → Option Rule
  | .assign => some assign
  | kind => nameRule? kind

def literal : Rule := fun _ => Emit.text "%(value)s"

def number? : Element → Kind → Option Rule
  | .int, .int | .float, .float | .double, .float => some literal
  | .complex, .imag => some fun _ => Emit.text "cx_double(0, %(value)s)"
  | _, kind => shared? kind

def assignUnknown : Rule := fun id => do
  let texts ← childTexts id
  let assigned ← str (← child id (-1))
  Emit.text ("[" ++ joinWith ", " texts.dropLast ++ "] = " ++ assigned ++ " ;")

def unknownRule? : Kind → Option Rule
  | .assigns => some assignUnknown
  | .matrix => some fun _ => Emit.around "" ", " ""
  | kind => shared? kind

/-- The rule for texts. In a matrix a text is made one that can be joined. -/
def text : Rule := fun id => do
  let named := (← name id) != ""
  if named || (← backend (← parent id)) != .matrix then Emit.text "\"%(value)s\""
  else Emit.text "std::string(\"%(value)s\")"

def typedRule? : Datatype → Kind → Option Rule
  | .num .scalar element, kind => number? element kind
  | .num shape _, kind => (element? shape kind).or (shared? kind)
  | .other .string, .string => some text
  | .other .struct, .matrix => some fun _ => Emit.around "" ", " ""
  | .other .structs, kind => recordsRule? kind
  | .other .cell, kind => cellRule? kind
  | .other .lambda, kind => lambdaRule? kind
  | .unknown, kind => unknownRule? kind
  | _, kind => shared? kind

def hasRules : Datatype → Bool
  | .num _ _ | .unknown => true
  | .other type => type != .wallClock && type != .splot
  | .foreign _ => false

end Rule

namespace RuleSet

def rule? (rules : RuleSet) (kind : Kind) (name : String) : Option Rule :=
  match rules with
  | .unknown => Rule.unknownRule? kind
  | .program => Rule.programRule? kind
  | .codeBlock => Rule.blockRule? kind
  | .expression => Rule.expressionRule? kind
  | .matrix => Rule.matrixRule? kind
  | .reserved => Rule.reservedRule? kind name
  | .funcReturn => Rule.returnRule? kind
  | .funcReturns => Rule.returnsRule? kind
  | .verbatim =>
    match kind with
    | .verbatim => some fun _ => Emit.text "// %(name)s\n%(value)s"
    | _ => none
  | .typed type => Rule.typedRule? type kind

def hasRules : RuleSet → Bool
  | .typed type => Rule.hasRules type
  | _ => true

end RuleSet

end ArmaGen
