import TemplateRecovery.Artifact.Member
import TemplateRecovery.Machine.Basic

/-!
# Templates that render

A template of the first generation holds a rendering function. It is recovered by running that
function on a fresh document and taking the node it returns.
-/

namespace TemplateRecovery

namespace Hook

/-- Checks that a rendering function returned a node. -/
def expectRendered (v : Value) : Act Value := do
  let s ← Act.store
  match s.asNode? v with
  | some _ => return v
  | none => Act.failShape .renderResult v

def newEnvironment : Act Value := do
  let document ← Act.new (.document .null)
  let hooks ← Act.new .hooks
  Act.new (.environment document hooks)

/-- Recovers a template with a rendering function: its root. -/
def recover (m : Machine) (template : Value) : Act Value := do
  let render ← Artifact.member "render" template
  let s ← Act.store
  if s.isCallable render then do
    let environment ← newEnvironment
    let result ← m.call render [.null, environment, .null]
    expectRendered result
  else Act.fail (.artifact .noRender)

end Hook

end TemplateRecovery
