import TemplateRecovery.Store.Act

/-!
# What running code can ask for

A script can call any value that can be called, and a hook can have a template recovered. Both may run
further scripts, so a `Machine` stands for these two abilities down to some depth of nesting.
-/

namespace TemplateRecovery

/-- The abilities of running code. -/
structure Machine where
  /-- Recovers a template with a rendering function: its root. -/
  recover : Value → Act Value
  /-- Calls a value. -/
  call : Value → List Value → Act Value

/-- The machine that can do nothing any more. -/
def Machine.exhausted : Machine where
  recover _ := Act.fail .endless
  call _ _ := Act.fail .endless

end TemplateRecovery
