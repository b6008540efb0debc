import ArmaGen.Datatype
import ArmaGen.Syntax.Tree

/-!
# Nodes of a project

A project is a tree whose nodes are addressed by number. A node carries what was read for it, what
is inferred about it and what is emitted for it. Its line, its group and its declaration are
remembered from the first look-up on.
-/

namespace ArmaGen

abbrev NodeId := Nat

inductive RuleSet where
  | unknown
  | program
  | codeBlock
  | expression
  | matrix
  | reserved
  | funcReturn
  | funcReturns
  | verbatim
  | typed (type : Datatype)
deriving Repr, DecidableEq, Inhabited

namespace RuleSet

def name : RuleSet → String
  | .unknown => "unknown"
  | .program => "program"
  | .codeBlock => "code_block"
  | .expression => "expression"
  | .matrix => "matrix"
  | .reserved => "reserved"
  | .funcReturn => "func_return"
  | .funcReturns => "func_returns"
  | .verbatim => "verbatim"
  | .typed type => type.name

def untyped : List RuleSet :=
  [.unknown, .program, .codeBlock, .expression, .matrix, .reserved, .funcReturn, .funcReturns,
   .verbatim]

def ofName (name : String) : RuleSet :=
  (untyped.find? fun rules => rules.name == name).getD (.typed (.ofName name))

abbrev lambda : RuleSet := .typed .lambda

abbrev struct : RuleSet := .typed .struct

abbrev structs : RuleSet := .typed .structs

def isRecord (rules : RuleSet) : Bool :=
  rules == struct || rules == structs

def isFunction (rules : RuleSet) : Bool :=
  rules == .funcReturn || rules == .funcReturns || rules == lambda

end RuleSet

/-- A suggested datatype: by name, by the numbers of its shape and element, or as the common one of
several. -/
inductive Suggestion where
  | type (type : Datatype)
  | ranks (shape element : Option Int)
  | types (types : List Datatype)
deriving Repr, DecidableEq, Inhabited

inductive Extra where
  | count (n : Int)
  | text (s : String)
  | mark
deriving Repr, DecidableEq, Inhabited

/-- What rules note about a node, beside its fields. -/
inductive ExtraKey where
  | cls | resize | rows | cols | ctype
deriving Repr, DecidableEq

def ExtraKey.name : ExtraKey → String
  | .cls => "cls"
  | .resize => "_resize"
  | .rows => "rows"
  | .cols => "cols"
  | .ctype => "ctype"

structure Node where
  kind : Kind
  name : String := ""
  value : String := ""
  pointer : Int := 0
  line? : Option Int := none
  /-- The position in the source; absent, it is that of the node above. -/
  cur? : Option Int := none
  /-- The text it was read from; absent, it is that of the node above. -/
  code? : Option String := none
  type : Datatype := .unknown
  suggestion : Suggestion := .type .unknown
  backend : RuleSet := .unknown
  str : String := ""
  ret : String := ""
  extras : List (ExtraKey × Extra) := []
  parent : NodeId := 0
  children : List NodeId := []
  foundLine? : Option Int := none
  foundGroup? : Option NodeId := none
  declare? : Option NodeId := none
  reference? : Option NodeId := none
  unassigned? : Option (List String) := none
  verbatims? : Option (List (String × String)) := none
deriving Repr, DecidableEq, Inhabited

def Node.ofHead (head : Head) : Node :=
  { kind := head.kind, name := head.name, value := head.value, pointer := head.pointer,
    cur? := head.cur?, code? := head.code? }

def Node.setExtra (node : Node) (key : ExtraKey) (value : Extra) : Node :=
  if node.extras.any fun entry => entry.1 == key then
    { node with extras := node.extras.map fun entry =>
        if entry.1 == key then (key, value) else entry }
  else { node with extras := node.extras ++ [(key, value)] }

def Node.extra? (node : Node) (key : ExtraKey) : Option Extra :=
  node.extras.lookup key

end ArmaGen
