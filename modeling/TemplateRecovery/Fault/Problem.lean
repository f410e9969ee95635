import TemplateRecovery.View.Repr

/-!
# Problems of artifacts, options and files

* `ArtifactProblem` is why an artifact is no template of the format it declares.
* `OptionProblem` is why an option is refused.
* `FileProblem` is why a file cannot be read.
-/

namespace TemplateRecovery

/-- Why an artifact is refused. -/
inductive ArtifactProblem where
  | noRevision
  | noRender
  | noTemplate
  | noMeta
  | noMetaRevision
  | revisionNotText (got : View)
  | revisionUnrecognized (revision : String)
  | notFunction (name : String)
  | notArray (name : String)

namespace ArtifactProblem

def member : ArtifactProblem → String
  | .noRevision => "revision"
  | .noRender => "render"
  | .noTemplate => "template"
  | .noMeta => "meta"
  | .noMetaRevision => "meta.revision"
  | .revisionNotText _ => "meta.revision"
  | .revisionUnrecognized _ => "meta.revision"
  | .notFunction name => name
  | .notArray name => name

/-- What is wrong with a declarative template. -/
def complaint : ArtifactProblem → String
  | .noTemplate => "is empty"
  | .noMeta => "is missing"
  | .noMetaRevision => "is missing"
  | .revisionNotText got => "must be a string, got " ++ got.typeName
  | .revisionUnrecognized revision => "'" ++ revision ++ "' has no recognizable version"
  | .notFunction _ => "must be a function"
  | .notArray _ => "must be an array"
  | .noRevision => "is missing"
  | .noRender => "is missing"

def message : ArtifactProblem → String
  | .noRevision => "Invalid template: revision missing."
  | .noRender => "Template is an invalid Ember v1.x template: render() is missing"
  | p => "Template is an invalid Ember v2.x template: " ++ p.member ++ " " ++ p.complaint

end ArtifactProblem

/-- Why a file cannot be read. -/
inductive FileProblem where
  | missing
  | directory
  | notDirectory
  /-- A part of the path is longer than names can be. -/
  | longName
  /-- The path holds the character zero. -/
  | zero
  deriving DecidableEq, Inhabited, Repr

def FileProblem.message (problem : FileProblem) (path : String) : String :=
  let located (cause : String) : String := cause ++ ": " ++ Text.quote path
  match problem with
  | .missing => located "[Errno 2] No such file or directory"
  | .directory => located "[Errno 21] Is a directory"
  | .notDirectory => located "[Errno 20] Not a directory"
  | .longName => located "[Errno 36] File name too long"
  | .zero => "embedded null byte"

/-- Why an option is refused. -/
inductive OptionProblem where
  | notMapping (got : View)
  | unexpectedKey (key : View)
  | givenTwice (key : View)
  | notPathList (got : View)
  | notText (got : View)
  | notInt (got : View)
  | negative (n : Int)
  /-- An option file cannot be read. -/
  | unreadable (path : String) (problem : FileProblem)
  /-- An option file is not well formed. -/
  | malformed (path : String)
  /-- An option file holds no mapping. -/
  | fileNotMapping (name : String) (got : View)

namespace OptionProblem

/-- The values that the message of a problem writes out. -/
def shown : OptionProblem → List View
  | .unexpectedKey key => [key]
  | .givenTwice key => [key]
  | .negative n => [.int n]
  | _ => []

def message : OptionProblem → String
  | .notMapping got => "expected mapping, got " ++ got.typeName
  | .unexpectedKey key => "unexpected key " ++ key.repr
  | .givenTwice key => "option given twice (as " ++ key.repr ++ ")"
  | .notPathList got => "expected list of paths, got " ++ got.typeName
  | .notText got => "expected str, got " ++ got.typeName
  | .notInt got => "expected int, got " ++ got.typeName
  | .negative n => "must not be negative, got " ++ toString n
  | .unreadable path problem =>
    "Failed to read options file " ++ path ++ ": " ++ problem.message path
  | .malformed path => "Invalid YAML in " ++ path
  | .fileNotMapping name got => name ++ " must be a mapping of options, got " ++ got.typeName

end OptionProblem

end TemplateRecovery
