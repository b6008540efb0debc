/-!
# Failures

Every way in which reading, typing or emitting a program can fail is a constructor of `Failure`.
`Failure.report?` is the only place where reports are worded; some causes have none.
-/

namespace ArmaGen

inductive Failure where
  /-- The source text is not what the grammar asks for; the report shows the place. -/
  | malformed (report : String)
  /-- A template could not be filled in; the report shows the template, the properties at hand
  and the place. -/
  | template (front properties back : String)
  | outside
  | noChild (name : String)
  | childRange (kind : String) (index : Int)
  /-- A child was asked for by something that is neither a position nor a name. -/
  | childIndex (kind : String) (given : String)
  /-- A quantity of the wrong sort: an unknown dimension compared, a text where a number belongs. -/
  | wrongSort
  | violated
  | blockParent (kind : String)
  | datatype (name : String)
  /-- A text that does not spell a number, or a member that is not in its list. -/
  | unreadable
  | tooLarge
  | noText (kind : String) (ruleSet : String)
  | noRule (kind : String) (ruleSet : String)
  | missingKey
  | notProgram
  | unsupported
  | unset
  | noAttribute
  | suggestionsAssigned
  | numericAssigned
  | noEngine
  | configuredTwice
  | supplement (file : String)
  | pattern
  | usage
  | help
  | endless
deriving Repr, DecidableEq, Inhabited

/-- The parents below which a block may be opened, as a failure lists them. -/
def Failure.blockParents : String :=
  "['Case', 'Catch', 'Elif', 'Else', 'Parfor', 'For', 'Func', 'If', 'Main', 'Otherwise', " ++
    "'Switch', 'Try', 'While']"

def Failure.report? : Failure → Option String
  | .malformed report => some report
  | .template front properties back => some (front ++ properties ++ back)
  | .noChild name => some ("node child \"" ++ name ++ "\" not found")
  | .childRange kind index =>
    some ("index of " ++ kind ++ " out of range (" ++ toString index ++ ")")
  | .childIndex kind given =>
    some ("index of " ++ kind ++ " must be in (int, str, slice, Node), not " ++ given)
  | .blockParent kind =>
    some ("parent of Block: " ++ kind ++ " not valid group parent\n" ++ Failure.blockParents)
  | .datatype name => some ("Datatype '" ++ name ++ "' not recognized")
  | .noText kind ruleSet =>
    some ("missing return in function " ++ kind ++ " in file " ++ ruleSet)
  | .noRule kind ruleSet =>
    some ("Expected to find rule for '" ++ kind ++ "' in the file '_" ++ ruleSet ++ ".py'")
  | .notProgram => some "Argument code should be code string, Builder or Program-node"
  | .suggestionsAssigned => some "Suggestions not to be set manually"
  | .numericAssigned => some "num can not be set True consistently"
  | .configuredTwice => some "configure can only be run once"
  | .supplement file =>
    some ("Supplement file:\n    " ++ file ++ ".py\n    is formated incorrectly. " ++
      "Change the format or convert with '-r' option to create\n    a new file.")
  | .usage => some "2"
  | .help => some "0"
  | .outside | .wrongSort | .violated | .unreadable | .missingKey | .unsupported | .unset
  | .noAttribute | .noEngine | .pattern | .tooLarge | .endless => none

end ArmaGen
