import ArmaGen.Scan.Expression

/-!
# Items of bracketed lists

A list is cut into rows, and a row into the spans of its items, first and last character each: at
commas by `commaList`, at blanks by `spaceList`. `itemList` chooses between them.
-/

namespace ArmaGen

/-- The rows of a list; an item is given by its first and last position. -/
abbrev Rows := List (List (Int × Int))

def Rows.addItem (span : Int × Int) : Rows → Rows
  | [] => [[span]]
  | row :: rows => (span :: row) :: rows

def Rows.inOrder (rows : Rows) : Rows :=
  (rows.map List.reverse).reverse

namespace Source

/-- Reads a comma-separated list from `k` on; `full` says that an item stands since the last
separator. -/
def commaSteps (s : Source) : Nat → Rows → Bool → Int → Scan (Rows × Int)
  | 0, _, _, _ => .error .endless
  | n + 1, rows, full, k => do
    let c ← s.read k
    if s.reads k "..." then commaSteps s n rows full ((← s.dotsEnd k) + 1)
    else if startsExpression c then
      if full then s.expected k "comma list indicator"
      else
        let e ← s.expressionEnd k
        commaSteps s n (rows.addItem (k, e)) true (e + 1)
    else if c == ',' then
      if full then commaSteps s n rows false (k + 1)
      else s.expected k "comma list indicator"
    else if c == ';' then
      if full then commaSteps s n ([] :: rows) false (k + 1)
      else s.expected k "comma list indicator"
    else if closesList c then return (rows.inOrder, k)
    else commaSteps s n rows full (k + 1)

def commaList (s : Source) (start : Int) : Scan (Rows × Int) := do
  if !opensList (← s.read start) then s.expected start "list start"
  else
    let k ← s.skipBlanks (start + 1)
    if oneOf "]\x7d" (← s.read k) then return ([[]], k)
    else s.commaSteps s.steps [[]] false k

def commaItems (s : Source) (start : Int) : Scan Rows := do
  return (← s.commaList start).1

/-- One character of a blank-separated list: an item, the end of the list, or a character that
separates. -/
def spaceStep (s : Source) (go : Rows → Bool → Bool → Int → Scan (Rows × Int))
    (rows : Rows) (full dots : Bool) (k : Int) : Scan (Rows × Int) := do
  let c ← s.read k
  if startsExpression c then
    if full then s.expected k "expression start"
    else
      let e ← s.spacedExpressionEnd k
      go (rows.addItem (k, e)) true dots (e + 1)
  else if closesList c then return (rows.inOrder, k)
  else if isBlank c then go rows false dots (k + 1)
  else go rows full dots (k + 1)

/-- Reads a blank-separated list from `k` on. Rows end at a semicolon or a line end, until the first
continuation. -/
def spaceSteps (s : Source) : Nat → Rows → Bool → Bool → Int → Scan (Rows × Int)
  | 0, _, _, _, _ => .error .endless
  | n + 1, rows, full, dots, k => do
    let dots' := dots || s.reads k "..."
    let k ← if s.reads k "..." then s.dotsEnd k else pure k
    let c ← s.read k
    if c == ';' || c == '\n' then
      let rows' := if dots' then rows else [] :: rows
      let k' ← if c == ';' then s.through (oneOf " \n") k else pure k
      s.spaceStep (spaceSteps s n) rows' false dots' k'
    else s.spaceStep (spaceSteps s n) rows full dots' k

def spaceList (s : Source) (start : Int) : Scan (Rows × Int) := do
  if !opensList (← s.read start) then s.expected start "start of list"
  else s.spaceSteps s.steps [[]] false false (← s.skipBlanks (start + 1))

def spaceItems (s : Source) (start : Int) : Scan Rows := do
  return (← s.spaceList start).1

/-- The items of the list opened at `start`, separated as the list itself shows, and where it
ends. -/
def itemList (s : Source) (start : Int) : Scan (Rows × Int) := do
  if ← s.spaceDelimited start then s.spaceList start else s.commaList start

def items (s : Source) (start : Int) : Scan Rows := do
  return (← s.itemList start).1

end Source

end ArmaGen
