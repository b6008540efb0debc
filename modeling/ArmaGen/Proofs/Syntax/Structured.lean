import ArmaGen.Proofs.Syntax.Outline

/-!
# Structured programs

Programs of assignments, expressions, branches and loops, nested to any depth: scripts, and files of
functions. `Program.text` writes a program with one statement or keyword on each line, and
`Program.outline` is the tree that it should be read as.
-/

namespace ArmaGen.Structured

open List

/-! ### Names and atoms -/

/-- The words that start, divide or end statements, and the commands. -/
def keywords : List String :=
  ["case", "catch", "else", "elseif", "for", "parfor", "if", "otherwise", "switch", "try",
   "while", "hold", "grid", "return", "break"]

/-- Whether a name is free: it is no keyword, and starts neither like `end` nor like a function. -/
def isFree (cs : List Char) : Bool :=
  keywords.all (fun word => word.toList != cs) && !"end".toList.isPrefixOf cs &&
    !"function".toList.isPrefixOf cs

/-- A name that is free to be used. -/
structure Ident where
  name : Name
  free : isFree name.chars = true

inductive Atom where
  | ident (n : Ident)
  | numeral (d : WholeNumber)

def Atom.term : Atom → Term
  | .ident n => .name n.name
  | .numeral d => .numeral d

/-! ### Statements -/

mutual

inductive Stmt where
  /-- An expression that stands alone. -/
  | expr (a : Atom)
  | assign (v : Ident) (a : Atom)
  /-- A branch: its first condition and block, and what follows them. -/
  | branch (cond : Atom) (body : Block) (rest : Tail)
  | forLoop (v : Ident) (first last : Atom) (body : Block)
  | whileLoop (cond : Atom) (body : Block)

inductive Block where
  | nil
  | cons (s : Stmt) (rest : Block)

/-- What follows the first block of a branch. -/
inductive Tail where
  | done
  /-- What is done otherwise. -/
  | otherwise (body : Block)
  /-- A further condition with its block. -/
  | elif (cond : Atom) (body : Block) (rest : Tail)

end

def range (first last : Atom) : Term :=
  .chain .colon first.term [last.term]

/-! ### The text of statements -/

/-- No blanks around operators, and one after commas. -/
def tight : Spacing :=
  ⟨fun _ => 0, 1⟩

def written (t : Term) : List Char :=
  t.text tight

variable (w : Nat)

mutual

/-- The text of a statement whose lines are `d` levels deep, each shown by `w` blanks. -/
def Stmt.text (d : Nat) : Stmt → List Char
  | .expr a => written a.term
  | .assign v a => v.name.chars ++ " = ".toList ++ written a.term
  | .branch cond body rest =>
    "if ".toList ++ written cond.term ++ '\n' :: body.text (d + 1) ++ rest.text d
  | .forLoop v first last body =>
    "for ".toList ++ v.name.chars ++ " = ".toList ++ written (range first last) ++
      '\n' :: body.text (d + 1) ++ room (w * d) ++ "end".toList
  | .whileLoop cond body =>
    "while ".toList ++ written cond.term ++ '\n' :: body.text (d + 1) ++ room (w * d) ++
      "end".toList

def Block.text (d : Nat) : Block → List Char
  | .nil => []
  | .cons s rest => room (w * d) ++ s.text d ++ '\n' :: rest.text d

/-- What follows the first block of a branch, up to the end of the branch. -/
def Tail.text (d : Nat) : Tail → List Char
  | .done => room (w * d) ++ "end".toList
  | .otherwise body =>
    room (w * d) ++ "else".toList ++ '\n' :: body.text (d + 1) ++ room (w * d) ++ "end".toList
  | .elif cond body rest =>
    room (w * d) ++ "elseif ".toList ++ written cond.term ++ '\n' :: body.text (d + 1) ++
      rest.text d

end

/-! The equations of the texts, with what follows a part nested to the right. -/

section Equations

variable (d : Nat) (rest : List Char)

lemma Stmt.text_assign (v : Ident) (a : Atom) : (Stmt.assign v a).text w d ++ rest =
    v.name.chars ++ ' ' :: '=' :: ' ' :: (written a.term ++ rest) := by
  rw [show (Stmt.assign v a).text w d = v.name.chars ++ " = ".toList ++ written a.term from rfl,
    append_assoc, append_assoc]
  rfl

lemma Stmt.text_branch (cond : Atom) (body : Block) (tail : Tail) :
    (Stmt.branch cond body tail).text w d ++ rest = "if".toList ++ ' ' ::
      (written cond.term ++ '\n' :: (body.text w (d + 1) ++ (tail.text w d ++ rest))) := by
  rw [show (Stmt.branch cond body tail).text w d = "if ".toList ++ written cond.term ++ '\n' ::
    body.text w (d + 1) ++ tail.text w d from rfl]
  simp only [append_assoc]
  rfl

lemma Stmt.text_forLoop (v : Ident) (first last : Atom) (body : Block) :
    (Stmt.forLoop v first last body).text w d ++ rest = "for".toList ++ ' ' :: (v.name.chars ++
      ' ' :: '=' :: ' ' :: (written (range first last) ++ '\n' :: (body.text w (d + 1) ++
        (room (w * d) ++ ("end".toList ++ rest))))) := by
  rw [show (Stmt.forLoop v first last body).text w d = "for ".toList ++ v.name.chars ++
    " = ".toList ++ written (range first last) ++ '\n' :: body.text w (d + 1) ++ room (w * d) ++
    "end".toList from rfl]
  simp only [append_assoc]
  rfl

lemma Stmt.text_whileLoop (cond : Atom) (body : Block) :
    (Stmt.whileLoop cond body).text w d ++ rest = "while".toList ++ ' ' :: (written cond.term ++
      '\n' :: (body.text w (d + 1) ++ (room (w * d) ++ ("end".toList ++ rest)))) := by
  rw [show (Stmt.whileLoop cond body).text w d = "while ".toList ++ written cond.term ++ '\n' ::
    body.text w (d + 1) ++ room (w * d) ++ "end".toList from rfl]
  simp only [append_assoc]
  rfl

lemma Block.text_cons (s : Stmt) (b : Block) : (Block.cons s b).text w d ++ rest =
    room (w * d) ++ (s.text w d ++ '\n' :: (b.text w d ++ rest)) := by
  simp [Block.text]

lemma Tail.text_done : Tail.done.text w d ++ rest = room (w * d) ++ ("end".toList ++ rest) := by
  rw [show Tail.done.text w d = room (w * d) ++ "end".toList from rfl, append_assoc]

lemma Tail.text_otherwise (body : Block) : (Tail.otherwise body).text w d ++ rest =
    room (w * d) ++ ("else".toList ++ '\n' :: (body.text w (d + 1) ++
      (room (w * d) ++ ("end".toList ++ rest)))) := by
  rw [show (Tail.otherwise body).text w d = room (w * d) ++ "else".toList ++ '\n' ::
    body.text w (d + 1) ++ room (w * d) ++ "end".toList from rfl]
  simp

lemma Tail.text_elif (cond : Atom) (body : Block) (tail : Tail) :
    (Tail.elif cond body tail).text w d ++ rest = room (w * d) ++ ("elseif".toList ++ ' ' ::
      (written cond.term ++ '\n' :: (body.text w (d + 1) ++ (tail.text w d ++ rest)))) := by
  rw [show (Tail.elif cond body tail).text w d = room (w * d) ++ "elseif ".toList ++
    written cond.term ++ '\n' :: body.text w (d + 1) ++ tail.text w d from rfl]
  simp only [append_assoc]
  rfl

end Equations

/-! ### The outline of statements -/

def Ident.outline (v : Ident) : Outline :=
  (Term.name v.name).outline

mutual

def Stmt.outline : Stmt → Outline
  | .expr a => .node .statement "" "" [a.term.outline]
  | .assign v a => .node .assign "" "" [v.outline, a.term.outline]
  | .branch cond body rest =>
    .node .branch "" ""
      (.node .ifBranch "" "" [cond.term.outline, .node .block "" "" body.outlines] ::
        rest.outlines)
  | .forLoop v first last body =>
    .node .forLoop "" ""
      [v.outline, (range first last).outline, .node .block "" "" body.outlines]
  | .whileLoop cond body =>
    .node .whileLoop "" "" [cond.term.outline, .node .block "" "" body.outlines]

def Block.outlines : Block → List Outline
  | .nil => []
  | .cons s rest => s.outline :: rest.outlines

def Tail.outlines : Tail → List Outline
  | .done => []
  | .otherwise body => [.node .elseBranch "" "" [.node .block "" "" body.outlines]]
  | .elif cond body rest =>
    .node .elif "" "" [cond.term.outline, .node .block "" "" body.outlines] :: rest.outlines

end

def Block.outline (b : Block) : Outline :=
  .node .block "" "" b.outlines

/-! ### Programs -/

inductive Results where
  | one (r : Ident)
  | many (first second : Ident) (others : List Ident)

def Results.all : Results → List Ident
  | .one r => [r]
  | .many first second others => first :: second :: others

structure Func where
  results : Results
  name : Ident
  params : List Ident
  body : Block

inductive Program where
  /-- A script of one or more statements. -/
  | script (first : Stmt) (others : Block)
  /-- A file of one or more functions. -/
  | functions (first : Func) (others : List Func)

def listed : List Ident → List Char
  | [] => []
  | [v] => v.name.chars
  | v :: vs => v.name.chars ++ ", ".toList ++ listed vs

def Results.text : Results → List Char
  | .one r => r.name.chars
  | .many first second others => '[' :: listed (first :: second :: others) ++ [']']

def Func.text (f : Func) : List Char :=
  "function ".toList ++ f.results.text ++ " = ".toList ++ f.name.name.chars ++
    '(' :: listed f.params ++ [')', '\n'] ++ f.body.text w 1 ++ "end".toList

/-- The lines of a program. -/
def Program.lines : Program → List Char
  | .script first others => (Block.cons first others).text w 0
  | .functions first others => (first :: others).flatMap fun f => f.text w ++ ['\n']

/-- The text of a program, with so many line ends after its last line. -/
def Program.text (ends : Nat) (p : Program) : List Char :=
  (p.lines w).dropLast ++ replicate ends '\n'

def Func.outline (f : Func) : Outline :=
  .node .func f.name.name.text ""
    [.node .declares "" "" [], .node .returns "" "" (f.results.all.map Ident.outline),
     .node .params "" "" (f.params.map Ident.outline), f.body.outline]

/-- The outlines of the functions of a program; a script is the body of one called `main`. -/
def Program.outlines : Program → List Outline
  | .script first others =>
    [.node .main "main" ""
      [.node .declares "" "" [], .node .returns "" "" [], .node .params "" "" [],
       (Block.cons first others).outline]]
  | .functions first others => (first :: others).map Func.outline

def Program.outline (name : String) (p : Program) : Outline :=
  .node .funcs name "" p.outlines

end ArmaGen.Structured
