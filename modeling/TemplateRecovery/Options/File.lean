import TemplateRecovery.Options.Basic
import TemplateRecovery.Store.Act
import TemplateRecovery.Yaml.Build

/-!
# Option files

The options that a file gives. An empty file gives the defaults.
-/

namespace TemplateRecovery

namespace Options

def fileName (path : String) : String :=
  String.ofList (path.toList.reverse.takeWhile (· != '/')).reverse

def readFile (path text : String) : Act Value := fun s =>
  match Yaml.read text s with
  | .ok (v, s) => .ok v s
  | .error .malformed => .error (.options (.malformed path) []) s
  | .error (.fault cause) => .error cause s

/-- The options in the file at a path, given what reading it gave. -/
def ofFile (path : String) : Except FileProblem String → Act Options
  | .error .zero => Act.fail (.unreachable .zero path)
  | .error problem => Act.fail (.options (.unreadable path problem) [])
  | .ok text => do
    let v ← readFile path text
    let s ← Act.store
    match v, s.entries? v with
    | .null, _ => return {}
    | v, some _ => Act.lift (ofMapping s v)
    | v, none => Act.fail (.options (.fileNotMapping (fileName path) (s.view v)) [])

end Options

end TemplateRecovery
