import TemplateRecovery.Attribute.Basic

/-!
# Members of artifacts

A compiled template is a mapping or an object with attributes; its members are looked up in the same
way in both.
-/

namespace TemplateRecovery

namespace Artifact

def member? (name : String) (artifact : Value) : Act (Option Value) := do
  let s ← Act.store
  match artifact, s.entries? artifact with
  | .null, _ => return none
  | _, some entries => return s.findName? name entries
  | artifact, none => Attribute.find? artifact name

/-- The member with this name; null stands for a missing one. -/
def member (name : String) (artifact : Value) : Act Value := do
  let found ← member? name artifact
  return found.getD .null

end Artifact

end TemplateRecovery
