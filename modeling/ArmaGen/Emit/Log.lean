import ArmaGen.Emit.Properties

/-!
# Messages

Errors and warnings go to the messages of the program, with the lines of source text they are
about and the place in them. There is one message for a kind of node at a position.
-/

namespace ArmaGen.Edit

def lineEndAfter (s : Source) : Nat → Int → Except Failure Int
  | 0, k => .ok k
  | n + 1, k => do
    if (← s.read k) == '\n' || k == (s.size : Int) - 1 then return k
    else lineEndAfter s n (k + 1)

def lineEndBefore (s : Source) : Nat → Int → Except Failure Int
  | 0, k => .ok k
  | n + 1, k => do
    if (← s.read k) == '\n' || k == 0 then return k else lineEndBefore s n (k - 1)

def linesAround (s : Source) (start stop : Int) : Except Failure (Int × Int) := do
  let first ← lineEndBefore s s.steps start
  let stop := if (s.size : Int) ≤ stop then (s.size : Int) - 1 else stop
  return (first, ← lineEndAfter s s.steps stop)

def message (kind : Kind) (id : NodeId) (text : String) : Edit Unit := do
  let value ← (Template.fill (← properties id) text : Except Failure String)
  let s := Source.ofString (← code (← program id))
  let cur ← cur id
  let stop := cur + (← code id).length
  let (first, last) ← (linesAround s cur stop : Except Failure (Int × Int))
  let name := (← node id).kind.name ++ ":" ++ toString cur
  let log ← logOf id
  if !(← hasChild log name) then
    let _ ← make log
      { kind, name, value, line? := some (← line id), cur? := some (cur - first),
        code? := some (s.slice first last), backend := .program,
        extras := [(.cls, .text (dropChars 10 name))] }

def error (id : NodeId) (text : String) : Edit Unit :=
  message .error id text

def warning (id : NodeId) (text : String) : Edit Unit :=
  message .warning id text

end ArmaGen.Edit
