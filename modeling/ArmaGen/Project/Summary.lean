import ArmaGen.Project.Traverse
import ArmaGen.Project.Typing

/-!
# Summaries of trees

A summary shows a node and the nodes below it, one on a line: line and column, the depth as bars,
the kind, the rules, the datatype (in parentheses if it is only suggested) and the name.
-/

namespace ArmaGen

/-- The text after the `\\n` that are spelled out at its front. -/
def dropMarks : List Char → List Char
  | '\\' :: 'n' :: rest => dropMarks rest
  | cs => cs

/-- Text without runs of two or more `\\n` that are spelled out, in at most `n` steps. -/
def withoutMarksSteps : Nat → List Char → List Char
  | 0, cs => cs
  | _, [] => []
  | n + 1, '\\' :: 'n' :: '\\' :: 'n' :: rest => withoutMarksSteps n (dropMarks rest)
  | n + 1, c :: rest => c :: withoutMarksSteps n rest

def withoutMarks (text : String) : String :=
  String.ofList (withoutMarksSteps text.length text.toList)

namespace Edit

def shownType (id : NodeId) : Edit String := do
  match ← typeOf id with
  | .unknown =>
    match (← node (← declaration id)).suggestion with
    | .type .unknown => return "TYPE"
    | .type type => return "(" ++ type.name ++ ")"
    | .ranks _ _ | .types _ => throw .wrongSort
  | type => return type.name

/-- The line and column of a node in columns of given widths; blanks if it has no line. -/
def shownPlace (lineWidth columnWidth : Nat) (id : NodeId) : Edit String := do
  let line ← line id
  if line == 0 then return blanks (lineWidth + columnWidth + 1)
  else
    let cur ← cur id
    return padLeft lineWidth (toString line) ++ " " ++ padLeft columnWidth (toString (cur + 1))

/-- The nodes among `above` that stay open when a node with that parent follows. -/
def openAbove (parent : NodeId) : List NodeId → List NodeId
  | [] => []
  | id :: rest => if id == parent then id :: rest else openAbove parent rest

def summaryLines (lineWidth columnWidth : Nat) : List NodeId → List NodeId → Edit (List String)
  | _, [] => return []
  | above, id :: rest => do
    let place ← shownPlace lineWidth columnWidth id
    let node ← node id
    let above := openAbove node.parent above
    let bars := String.join (above.map fun _ => "| ")
    let line := place ++ bars ++ padRight 11 node.kind.name ++ padRight 13 node.backend.name ++
      padRight 8 (← shownType id) ++ node.name
    return line :: (← summaryLines lineWidth columnWidth (id :: above) rest)

def summaryOf (ids : List NodeId) : Edit String := do
  match ids.getLast? with
  | none => throw .outside
  | some last =>
    let lineWidth := (toString (← line last)).length + 1
    let columnWidth := (toString ((← cur last) + 1)).length + 1
    return withoutMarks ("\n".intercalate (← summaryLines lineWidth columnWidth [] ids))

def summary (id : NodeId) : Edit String := do
  summaryOf (← nodesBelow id)

def firstOnLine (wanted : Int) : List NodeId → Edit (Option NodeId)
  | [] => return none
  | id :: rest => do
    if (← kind id) != .block && (← line id) == wanted then return some id
    else firstOnLine wanted rest

/-- The summary of the first node on a line, below a node; of the node itself if there is none. -/
def summaryAt (wanted : Int) (id : NodeId) : Edit String := do
  let ids ← nodesBelow id
  match ← firstOnLine wanted ids with
  | some found => summary found
  | none => summaryOf ids

end Edit

end ArmaGen
