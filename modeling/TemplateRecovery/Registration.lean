import TemplateRecovery.Options.Basic
import TemplateRecovery.Program.Run
import TemplateRecovery.Recover

/-!
# From a program to a template

A program is run in its environment, the one template it registers is captured, and the template is
recovered.

* `Registration.execute` returns the registered template.
* `Registration.recover` recovers it.
-/

namespace TemplateRecovery

namespace Registration

def globalsFor (o : Options) : Act Value :=
  Environment.build (o.context.map fun (k, v) => (.str k, v)) (o.requirePaths.map .str)
    (o.globalPaths.map .str)

/-- Runs a program and returns the one template it registered. -/
def execute (program : Program) (o : Options) : Act Value := do
  let globals ← globalsFor o
  let _ ← Program.evaluate program globals true
  Environment.captured

/-- Runs a program and recovers the template it registered. -/
def recover (program : Program) (o : Options) : Act Recovered := do
  let template ← execute program o
  let r ← Recover.artifact (.int o.indent) template
  Act.note (.recovered r.revision r.template.length)
  return r

end Registration

end TemplateRecovery
