import ArmaGen.CommandLine.Convert
import ArmaGen.Workload.Sample

/-!
# Workloads

A workload takes a sample program of some size through a part of the work and reads off a result:
a text that was made, its size, or how the program was refused.
-/

namespace ArmaGen

inductive Reading where
  | text (text : String)
  | texts (texts : List String)
  | size (n : Nat)
  | sizes (ns : List Nat)
  | sizedText (n : Nat) (text : String)
  | failures (failures : List Failure)
deriving Repr, DecidableEq, Inhabited

inductive Workload where
  | tree
  | cells
  | comments
  | progress
  | operators
  | convert
  | results
  | walks
  | source
  | header
  | log
  | supplement
  | branches
  | summaries
  | calls
  | records
  | mistakes
  | indexings
  | prediction
deriving Repr, DecidableEq, Inhabited

namespace Workload

def defaultSize : Workload → Nat
  | .tree | .source | .log | .supplement | .summaries => 60
  | .operators | .walks | .calls => 40
  | .comments | .convert => 30
  | .progress | .header | .mistakes | .indexings => 20
  | .branches => 10
  | .records => 8
  | .cells | .results => 6
  | .prediction => 1

/-! ### Steps -/

def outcome {α : Type} (options : Options) (edit : Edit α) : Except Failure α :=
  match edit.run { options } with
  | .ok value _ => .ok value
  | .error failure _ => .error failure

def reading {α : Type} (code : String) (read : NodeId → Edit α) : Edit α := do
  Edit.prepare [] true code
  read (← Edit.firstProgram)

def emittedSupplement (explained : Bool) (program : NodeId) : Edit String := do
  Edit.emit program
  Edit.supplementText explained program

def textOf (code : String) (read : NodeId → Edit String) : Except Failure Reading :=
  return .text (← outcome {} (reading code read))

def typedText (name code : String) (types : TypeTable) (read : NodeId → Edit String) :
    Except Failure Reading :=
  outcome {} do
    Edit.load name code
    let program ← Edit.firstProgram
    Edit.setFunctionTypes program types
    Edit.configure true
    return .text (← read program)

def named (types : List (String × String)) : Table TypeEntry :=
  types.map fun (name, type) => (name, .named type)

/-! ### Single workloads -/

def runComments (n : Nat) : Except Failure Reading := do
  let code := Sample.comments n
  let marked := fun (read : NodeId → Edit String) => do
    Edit.prepare [("hook", "/* injected verbatim */")] true code
    read (← Edit.firstProgram)
  let kept ← outcome {} (marked Edit.scriptText)
  let stripped ← outcome { comments := false } (reading code Edit.scriptText)
  let supplement ← outcome {} (marked (emittedSupplement false))
  return .texts [kept, stripped, supplement]

def total (sizes : List Nat) : Nat :=
  sizes.foldl (· + ·) 0

def runProgress (n : Nat) : Except Failure Reading :=
  outcome { disp := true } do
    Edit.load "disp" (Sample.mixture n)
    Edit.configure true
    let shown := (← get).shown.map fun line => line.length + 1
    return .sizedText (total shown) (← Edit.summary (← Edit.firstProgram))

def runConvert (n : Nat) : Except Failure Reading := do
  let arguments : Arguments := { filename := "script.m", suggest := true, echo := true }
  let directory : Directory := { path := "/", files := [("/script.m", Sample.branchesFirst n)] }
  let (ended, project) := arguments.run "" directory
  ended
  let source := (project.directory.file? "/script.m.cpp").getD ""
  return .size (source.toList.count '\n')

def runResults (n : Nat) : Except Failure Reading := do
  let code := Sample.results n
  let header ← outcome {} (reading code Edit.headerText)
  let log ← outcome {} (reading code Edit.logText)
  let supplement ← outcome {} (reading code (emittedSupplement false))
  return .text (joinWith "\n" [header, log, supplement])

def runWalks (n : Nat) : Except Failure Reading :=
  outcome {} <| reading (Sample.statements n) fun program => do
    Edit.emit program
    let project ← get
    let walks := [false, true].flatMap fun byLevel => [false, true].flatMap fun backwards =>
      [false, true].map fun fromBottom => project.flatten byLevel backwards fromBottom program
    let down := project.preorder false program
    let up := project.postorder false program
    return .sizes [total (walks.map List.length), down.length + up.length]

def runSummaries (n : Nat) : Except Failure Reading :=
  outcome {} <| reading (Sample.statements n) fun program => do
    Edit.emit program
    let whole ← Edit.summary program
    let core ← Edit.summary (← Edit.core program)
    return .sizes [whole.length, core.length]

def runRecords (n : Nat) : Except Failure Reading := do
  let code := Sample.records n
  let source ← outcome {} (reading code Edit.sourceText)
  let supplement ← outcome {} (reading code (emittedSupplement false))
  return .texts [source, supplement]

/-- How the first `n` of some texts with mistakes are refused; those that are not are left out. -/
def runMistakes (n : Nat) : Except Failure Reading :=
  return .failures ((Sample.cycle Sample.mistakes n).filterMap fun code =>
    match outcome {} (Edit.prepare [] true code) with
    | .ok _ => none
    | .error failure => some failure)

def indexingTypes : TypeTable :=
  [("main", named [("V", "vec"), ("R", "rowvec"), ("M", "mat"), ("C", "cube")])]

/-- The datatypes of the variables of the two functions that predict traces. -/
def predictionTypes : TypeTable :=
  [("ar_modeling", named [("B", "cx_mat"), ("C", "cx_vec"), ("M", "cx_mat"), ("R", "cx_vec"),
      ("ab", "cx_vec"), ("af", "cx_vec"), ("beta", "cx_double"), ("lf", "int"),
      ("mu", "double"), ("nx", "uword"), ("temp", "cx_mat"), ("x", "cx_vec"), ("y", "cx_vec"),
      ("yb", "cx_vec"), ("yf", "cx_vec")]),
    ("fx_decon", named [("DATA", "mat"), ("DATA_FX", "cx_mat"), ("DATA_FX_b", "cx_mat"),
      ("DATA_FX_f", "cx_mat"), ("DATA_b", "mat"), ("DATA_f", "mat"), ("aux_in", "cx_vec"),
      ("aux_out_b", "cx_vec"), ("aux_out_f", "cx_vec"), ("dt", "double"), ("fhigh", "int"),
      ("flow", "double"), ("ihigh", "int"), ("ilow", "int"), ("k", "int"), ("lf", "int"),
      ("mu", "double"), ("nf", "int"), ("nt", "int"), ("ntraces", "int")])]

/-! ### All workloads -/

def run (n : Nat) : Workload → Except Failure Reading
  | .tree => textOf (Sample.statements n) Edit.summary
  | .cells => textOf (Sample.cells n) Edit.scriptText
  | .comments => runComments n
  | .progress => runProgress n
  | .operators => textOf (Sample.operators n) Edit.scriptText
  | .convert => runConvert n
  | .results => runResults n
  | .walks => runWalks n
  | .source => textOf (Sample.statements n) Edit.sourceText
  | .header => textOf (Sample.functions n) Edit.headerText
  | .log => do
    return .text (← outcome {} do
      Edit.prepare [] false (Sample.statements n)
      Edit.logText (← Edit.firstProgram))
  | .supplement => textOf (Sample.statements n) (emittedSupplement true)
  | .branches => textOf (Sample.branches n) Edit.scriptText
  | .summaries => runSummaries n
  | .calls => textOf (Sample.calls n) Edit.scriptText
  | .records => runRecords n
  | .mistakes => runMistakes n
  | .indexings => typedText "unamed" (Sample.indexings n) indexingTypes Edit.scriptText
  | .prediction => typedText "fx_decon" Sample.prediction predictionTypes Edit.headerText

end Workload

end ArmaGen
