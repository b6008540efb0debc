/-!
# Character classes of Matlab text

The classes by which scanners and grammar decide. All of them are ASCII classes: a letter or a
digit outside ASCII is an ordinary character to the language.
-/

namespace ArmaGen

def isLetter (c : Char) : Bool :=
  ('a' ≤ c && c ≤ 'z') || ('A' ≤ c && c ≤ 'Z')

def isDigit (c : Char) : Bool :=
  '0' ≤ c && c ≤ '9'

def isAlnum (c : Char) : Bool :=
  isLetter c || isDigit c

def isWord (c : Char) : Bool :=
  isAlnum c || c == '_'

def isHandle (c : Char) : Bool :=
  isWord c || c == '@'

def isBlank (c : Char) : Bool :=
  c == ' ' || c == '\t'

def oneOf (set : String) (c : Char) : Bool :=
  set.toList.contains c

def startsExpression (c : Char) : Bool :=
  isAlnum c || oneOf "[(\x7b~-+:@.'" c

def endsExpression (c : Char) : Bool :=
  oneOf "%])\x7d,;\n" c

def opensList (c : Char) : Bool :=
  oneOf "[(\x7b" c

def closesList (c : Char) : Bool :=
  oneOf "]\x7d)" c

def endsKeyword (c : Char) : Bool :=
  oneOf " \t(,;\n%" c

def isOperator (c : Char) : Bool :=
  oneOf "^\\/*+-:<>&|" c

def pairOperators : List String :=
  [".^", ".\\", "./", ".*", "<=", ">=", "==", "~=", "&&", "||"]

end ArmaGen
