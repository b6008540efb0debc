import ArmaGen.Scan.Items
import ArmaGen.Syntax.Tree
import ArmaGen.Text.Quoted

/-!
# Parsers that grow a forest

A parser reads the source and leaves three things behind: the nodes it made, the notes it wrote to
the progress display, and its result or failure. Nodes and notes made before a failure stay. What a
parser makes depends on the source alone.
-/

namespace ArmaGen

structure Setting where
  source : Source
  comments : Bool := true
  disp : Bool := false
deriving Inhabited

structure Parsed (α : Type) where
  made : List Syntax
  notes : List String
  outcome : Except Failure α

def Parse (α : Type) : Type :=
  Setting → Parsed α

namespace Parse

def result {α : Type} (a : α) : Parse α :=
  fun _ => ⟨[], [], .ok a⟩

def andThen {α β : Type} (p : Parse α) (q : α → Parse β) : Parse β := fun setting =>
  match p setting with
  | ⟨made, notes, .error failure⟩ => ⟨made, notes, .error failure⟩
  | ⟨made, notes, .ok a⟩ =>
    let rest := q a setting
    ⟨made ++ rest.made, notes ++ rest.notes, rest.outcome⟩

instance : Monad Parse where
  pure := result
  bind := andThen

def scan {α : Type} (scanner : Scan α) : Parse α :=
  fun _ => ⟨[], [], scanner⟩

instance : MonadLift Scan Parse where
  monadLift := scan

def fail {α : Type} (failure : Failure) : Parse α :=
  scan (.error failure)

def source : Parse Source :=
  fun setting => ⟨[], [], .ok setting.source⟩

def keepsComments : Parse Bool :=
  fun setting => ⟨[], [], .ok setting.comments⟩

def shows : Parse Bool :=
  fun setting => ⟨[], [], .ok setting.disp⟩

def expected {α : Type} (k : Int) (what : String) : Parse α := do
  scan ((← source).expected k what)

/-! ### Making nodes -/

def emit (items : List Syntax) : Parse Unit :=
  fun _ => ⟨items, [], .ok ()⟩

def leaf (head : Head) : Parse Unit :=
  emit [.leaf head]

/-- Makes a node with all that a parser makes below it; `close` completes the node, and may still
fail. -/
def wrap {α β : Type} (head : Head) (body : Parse α)
    (close : List Syntax → α → Head × Except Failure β) : Parse β := fun setting =>
  match body setting with
  | ⟨made, notes, .error failure⟩ => ⟨[.node head made], notes, .error failure⟩
  | ⟨made, notes, .ok a⟩ =>
    let (head, outcome) := close made a
    ⟨[.node head made], notes, outcome⟩

def node {α : Type} (head : Head) (body : Parse α) : Parse α :=
  wrap head body fun _ a => (head, .ok a)

/-- Makes a node with all that a parser makes below it, and writes its text once it is known. -/
def nodeThen {α : Type} (head : Head) (body : Parse α) (code : α → String) : Parse α :=
  wrap head body fun _ a => ({ head with code? := some (code a) }, .ok a)

def declaring {α : Type} (p : Parse α) : Parse α := fun setting =>
  match p setting with
  | ⟨made, notes, .ok a⟩ => ⟨Syntax.declareLast made, notes, .ok a⟩
  | failed => failed

def declareAround : Parse Unit :=
  emit [.declare]

/-- Runs a parser and gives what it made and its outcome, instead of leaving them behind. -/
def attempt {α : Type} (p : Parse α) : Parse (List Syntax × Except Failure α) := fun setting =>
  let parsed := p setting
  ⟨[], parsed.notes, .ok (parsed.made, parsed.outcome)⟩

def elseLeaving {α : Type} (p : Parse α) (items : List Syntax) : Parse α := fun setting =>
  match p setting with
  | ⟨made, notes, .error failure⟩ => ⟨made ++ items, notes, .error failure⟩
  | done => done

/-! ### Notes -/

def note (line : Unit → String) : Parse Unit := fun setting =>
  ⟨[], if setting.disp then [line ()] else [], .ok ()⟩

def column (k : Int) : String :=
  padLeft 4 (toString k)

/-- Notes what is read at a position, which part of the grammar reads it, and its text. -/
def progress (k : Int) (label place : String) (a b : Int) : Parse Unit := do
  let s ← source
  note fun _ => column k ++ label ++ " " ++ padRight 20 place ++ " " ++ quoted (s.slice a b)

end Parse

end ArmaGen
