/-!
# Splitting, joining and padding texts

A text is split at every place, read from the left, where a separator stands; replacing a text joins
the pieces again with something else.
-/

namespace ArmaGen

/-- The pieces between the places where `sep` stands; `skip` characters are still to be passed,
`piece` is the piece so far in reverse order. -/
def splitSteps (sep : List Char) : Nat → List Char → List Char → List (List Char)
  | _, piece, [] => [piece.reverse]
  | skip + 1, piece, _ :: rest => splitSteps sep skip piece rest
  | 0, piece, c :: rest =>
    if sep.isPrefixOf (c :: rest) then piece.reverse :: splitSteps sep (sep.length - 1) [] rest
    else splitSteps sep 0 (c :: piece) rest

def splitAt (sep text : List Char) : List (List Char) :=
  splitSteps sep 0 [] text

def splitText (sep text : String) : List String :=
  (splitAt sep.toList text.toList).map String.ofList

def joinWith (sep : String) : List String → String
  | [] => ""
  | [text] => text
  | text :: rest => text ++ sep ++ joinWith sep rest

def replaceText (old new text : String) : String :=
  joinWith new (splitText old text)

def occursIn (word : List Char) : List Char → Bool
  | [] => word.isEmpty
  | c :: rest => word.isPrefixOf (c :: rest) || occursIn word rest

def blanks (n : Nat) : String :=
  String.ofList (List.replicate n ' ')

def padRight (width : Nat) (text : String) : String :=
  text ++ blanks (width - text.length)

def padLeft (width : Nat) (text : String) : String :=
  blanks (width - text.length) ++ text

def dropChars (n : Nat) (text : String) : String :=
  String.ofList (text.toList.drop n)

def dropLast (n : Nat) (text : String) : String :=
  String.ofList (text.toList.take (text.length - n))

def percentMark : String := "__percent__"

def hidePercent (text : String) : String :=
  replaceText "%" percentMark text

def showPercent (text : String) : String :=
  replaceText percentMark "%" text

end ArmaGen
