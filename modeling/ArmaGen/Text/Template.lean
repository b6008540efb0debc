import ArmaGen.Decimal.Shortest
import ArmaGen.Failure
import ArmaGen.Text.Quoted

/-!
# Templates

A template is a text with directives that a percent sign opens: `%(key)s` stands for the property of
that key, `%%` for a percent sign. Between key and letter may stand marks for alignment and sign, a
width and a precision. A directive without a key stands for all properties at once; only the first
one may do so. A template that cannot be filled in fails.
-/

namespace ArmaGen

inductive Property where
  | text (text : String)
  | number (n : Int)
  | pair (first second : Option Int)
  | texts (texts : List String)
  | mark
deriving Repr, DecidableEq, Inhabited

abbrev Properties := List (String × Property)

namespace Property

def missingText : Option Int → String
  | some n => toString n
  | none => "None"

def shown : Property → String
  | .text s => s
  | .number n => toString n
  | .pair first second => "(" ++ missingText first ++ ", " ++ missingText second ++ ")"
  | .texts items => "[" ++ joinWith ", " (items.map quoted) ++ "]"
  | .mark => "True"

def literal : Property → String
  | .text s => quoted s
  | property => property.shown

def number? : Property → Option Int
  | .number n => some n
  | .mark => some 1
  | _ => none

end Property

def Properties.shown (properties : Properties) : String :=
  "\x7b" ++ ", ".intercalate (properties.map fun (key, property) =>
    quoted key ++ ": " ++ property.literal) ++ "\x7d"

namespace Template

def key (key : String) : String :=
  "%(" ++ key ++ ")s"

def child (index : Nat) : String :=
  key (toString index)

inductive Subject where
  | all (properties : Properties)
  | one (property : Property)

def Subject.shown : Subject → String
  | .all properties => properties.shown
  | .one property => property.shown

def Subject.literal : Subject → String
  | .all properties => properties.shown
  | .one property => property.literal

structure Layout where
  left : Bool := false
  plus : Bool := false
  blank : Bool := false
  base : Bool := false
  zeros : Bool := false
  width : Nat := 0
  precision : Option Nat := none

def Layout.mark? (layout : Layout) : Char → Option Layout
  | '-' => some { layout with left := true }
  | '+' => some { layout with plus := true }
  | ' ' => some { layout with blank := true }
  | '#' => some { layout with base := true }
  | '0' => some { layout with zeros := true }
  | _ => none

def Layout.marks (layout : Layout) : List Char → Layout × List Char
  | [] => (layout, [])
  | c :: rest =>
    match layout.mark? c with
    | some layout => layout.marks rest
    | none => (layout, c :: rest)

def Layout.align (layout : Layout) (text : String) : String :=
  if layout.left then padRight layout.width text else padLeft layout.width text

def Layout.ofText (layout : Layout) (text : String) : String :=
  layout.align <| match layout.precision with
    | some n => String.ofList (text.toList.take n)
    | none => text

/-- Lays out the digits of a number after its sign and a mark for its base. -/
def Layout.ofDigits (layout : Layout) (negative : Bool) (mark digits : String) : String :=
  let digits := match layout.precision with
    | some n => String.ofList (List.replicate (n - digits.length) '0') ++ digits
    | none => digits
  let sign := if negative then "-" else if layout.plus then "+"
    else if layout.blank then " " else ""
  let front := sign ++ mark
  if layout.zeros && !layout.left then
    let gap := layout.width - front.length - digits.length
    front ++ String.ofList (List.replicate gap '0') ++ digits
  else layout.align (front ++ digits)

def digitsIn (base : Nat) (n : Int) : String :=
  String.ofList (Nat.toDigits base n.natAbs)

def Subject.number : Subject → Except Failure Int
  | .one property =>
    match property.number? with
    | some n => .ok n
    | none => .error .wrongSort
  | .all _ => .error .wrongSort

/-- The character that a subject is: by its number, or as a text of one character. -/
def Subject.character : Subject → Except Failure String
  | .one (.text text) => if text.length == 1 then .ok text else .error .wrongSort
  | subject => do
    let n ← subject.number
    if 0 ≤ n && n ≤ 0x10ffff then return String.ofList [Char.ofNat n.toNat]
    else throw .tooLarge

/-- Lays out a number as a real one, whose magnitude is written by a function. -/
def Layout.ofReal (layout : Layout) (subject : Subject) (write : Bool → Nat → Nat → String) :
    Except Failure String := do
  let n ← subject.number
  match nearestWhole? n.natAbs with
  | some magnitude =>
    let digits := write layout.base (layout.precision.getD 6) magnitude
    return { layout with precision := none }.ofDigits (n < 0) "" digits
  | none => throw .tooLarge

def asciiOnly (text : String) : String :=
  String.ofList (text.toList.flatMap fun c => if c.toNat < 128 then [c] else escapedCode c)

def Layout.apply (layout : Layout) (subject : Subject) : Char → Except Failure String
  | 's' => .ok (layout.ofText subject.shown)
  | 'r' => .ok (layout.ofText subject.literal)
  | 'a' => .ok (layout.ofText (asciiOnly subject.literal))
  | 'c' => do return layout.align (← subject.character)
  | 'd' | 'i' | 'u' => do
    let n ← subject.number
    return layout.ofDigits (n < 0) "" (digitsIn 10 n)
  | 'o' => do
    let n ← subject.number
    return layout.ofDigits (n < 0) (if layout.base then "0o" else "") (digitsIn 8 n)
  | 'x' => do
    let n ← subject.number
    return layout.ofDigits (n < 0) (if layout.base then "0x" else "") (digitsIn 16 n)
  | 'X' => do
    let n ← subject.number
    return layout.ofDigits (n < 0) (if layout.base then "0X" else "") (digitsIn 16 n).toUpper
  | 'f' | 'F' => layout.ofReal subject fixedText
  | 'e' => layout.ofReal subject scientificText
  | 'E' => String.toUpper <$> layout.ofReal subject scientificText
  | 'g' => layout.ofReal subject generalText
  | 'G' => String.toUpper <$> layout.ofReal subject generalText
  | _ => .error .unreadable

structure Supply where
  subject : Subject
  fresh : Bool

def Supply.take (supply : Supply) : Except Failure (Subject × Supply) :=
  if supply.fresh then .ok (supply.subject, { supply with fresh := false })
  else .error .wrongSort

/-- The key up to the parenthesis that closes it, and what follows, with so many open inside. -/
def splitKey : Nat → List Char → Option (List Char × List Char)
  | _, [] => none
  | depth, ')' :: rest =>
    match depth with
    | 0 => some ([], rest)
    | depth + 1 => (splitKey depth rest).map fun (key, rest) => (')' :: key, rest)
  | depth, c :: rest =>
    (splitKey (if c == '(' then depth + 1 else depth) rest).map fun (key, rest) =>
      (c :: key, rest)

def keyed (properties : Properties) (supply : Supply) :
    List Char → Except Failure (Supply × List Char)
  | '(' :: rest =>
    match splitKey 0 rest with
    | none => .error .unreadable
    | some (key, rest) =>
      match properties.lookup (String.ofList key) with
      | none => .error .missingKey
      | some property => .ok ({ subject := .one property, fresh := true }, rest)
  | text => .ok (supply, text)

def maxAmount : Nat := 2147483647

def amount (supply : Supply) : List Char → Except Failure (Option Int × Supply × List Char)
  | '*' :: rest => do
    let (subject, supply) ← supply.take
    return (some (← subject.number), supply, rest)
  | text =>
    let digits := text.takeWhile isDigit
    let value := digits.foldl (fun value c => 10 * value + (c.toNat - '0'.toNat)) 0
    if maxAmount < value then .error .unreadable
    else .ok (if digits.isEmpty then none else some (value : Int), supply, text.dropWhile isDigit)

def layoutOf (supply : Supply) (text : List Char) :
    Except Failure (Layout × Supply × List Char) := do
  let (layout, text) := Layout.marks {} text
  let (width, supply, text) ← amount supply text
  let width := width.getD 0
  let layout := if width < 0 then { layout with left := true, width := width.natAbs }
    else { layout with width := width.toNat }
  match text with
  | '.' :: text =>
    let (precision, supply, text) ← amount supply text
    return ({ layout with precision := some (precision.getD 0).toNat }, supply, text)
  | text => return (layout, supply, text)

def dropSize : List Char → List Char
  | c :: rest => if oneOf "hlL" c then rest else c :: rest
  | [] => []

/-- Reads a directive after its percent sign: gives what it stands for, the supply and the rest of
the template. -/
def directive (properties : Properties) (supply : Supply) :
    List Char → Except Failure (String × Supply × List Char)
  | '%' :: rest => .ok ("%", supply, rest)
  | text => do
    let (supply, text) ← keyed properties supply text
    let (layout, supply, text) ← layoutOf supply text
    match dropSize text with
    | [] => throw .unreadable
    | c :: rest =>
      let (subject, supply) ← supply.take
      return (← layout.apply subject c, supply, rest)

def fillSteps (properties : Properties) :
    Nat → Supply → List Char → Except Failure (List String)
  | 0, _, _ => .error .endless
  | _, _, [] => .ok []
  | n + 1, supply, '%' :: rest => do
    let (text, supply, rest) ← directive properties supply rest
    return text :: (← fillSteps properties n supply rest)
  | n + 1, supply, text => do
    let plain := text.takeWhile (· != '%')
    return String.ofList plain ::
      (← fillSteps properties n supply (text.dropWhile (· != '%')))

def fill (properties : Properties) (template : String) : Except Failure String := do
  return String.join
    (← fillSteps properties (template.length + 1) ⟨.all properties, true⟩ template.toList)

end Template

end ArmaGen
