import TemplateRecovery.Machine.Call
import TemplateRecovery.Opcode.Template

/-!
# Recovering a template

The revision of an artifact decides how it is encoded, and the encoding how its tree is recovered.
The text of the tree is the template as it was written before it was compiled.

* `Recover.load` recovers the tree, `Recover.artifact` its text.
-/

namespace TemplateRecovery

/-- A recovered tree. -/
structure Loaded where
  revision : String
  format : Revision.Format
  root : Value

/-- A recovered template. -/
structure Recovered where
  revision : String
  format : Revision.Format
  template : String
  deriving DecidableEq, Repr

namespace Recover

/-- Recovers a template with a rendering function; the store bounds how deep calls are nested. -/
def hooks (template : Value) : Act Value := do
  let s ← Act.store
  Hook.recover (s.machine 0) template

def opcodes (template : Value) : Act Value := do
  let s ← Act.store
  Opcode.recoverWithin (s.machine 0) s.depth template

def tree : Revision.Format → Value → Act Value
  | .hooks, artifact => hooks artifact
  | .opcodes, artifact => opcodes artifact

def load (artifact : Value) : Act Loaded := do
  let (revision, format) ← Revision.detect artifact
  Act.note (.detected revision format.name)
  let root ← tree format artifact
  return ⟨revision, format, root⟩

/-- Recovers the text of an artifact, with the given step of indentation. -/
def artifact (step v : Value) : Act Recovered := do
  let loaded ← load v
  let s ← Act.store
  let text ← Act.lift ((s.tree loaded.root).toText (.int 0) (s.view step))
  return ⟨loaded.revision, loaded.format, text⟩

end Recover

end TemplateRecovery
