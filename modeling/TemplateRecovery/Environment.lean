import TemplateRecovery.Alias
import TemplateRecovery.Machine.Call

/-!
# The environment of a program

A compiled template is wrapped in a program that hands it to a registration function. The
environment gives the program the names it expects and captures the one template it registers.

* `Environment.captured` is the template that was registered.
* `Environment.build` prepares the globals: the answer of the loader and the module object, the
  context of the user, and the registration surface at every alias path.
-/

namespace TemplateRecovery

namespace Environment

def captured : Act Value := do
  let s ← Act.store
  match s.registered with
  | some template => return template
  | none => Act.fail .noRegistration

def surfaceFields : Act Fields := do
  let current ← Act.new (.record [("template", .registrar)])
  let refusal ← Act.new (.function .refusal [])
  let older ← Act.new (.record [("template", refusal)])
  return [("HTMLBars", current), ("Handlebars", older)]

def defineAll (root v : Value) : List Value → Act Unit
  | [] => return ()
  | path :: rest => do
    Alias.defineAt root v path
    defineAll root v rest

/-- Entries with those of a context bound over them. -/
def withContext (s : Store) (names context : Entries) : Entries :=
  context.foldl (fun entries (k, v) => s.insert k v entries) names

/-- The globals of a program. The context may shadow the names that are always there, and the alias
paths run through what the context holds. -/
def build (context : Entries) (requirePaths globalPaths : List Value) : Act Value := do
  let fields ← surfaceFields
  let surface ← Act.new (.record fields)
  let answer ← Act.new (.record fields)
  defineAll answer surface requirePaths
  let require ← Act.new (.function (.loader answer) [])
  let exports ← Act.new (.record [])
  let s ← Act.store
  let names := [(.str "require", require), (.str "module", exports)]
  let globals ← Act.new (.map (withContext s names context))
  defineAll globals surface globalPaths
  return globals

/-- The entries of a context: nothing for one that counts as absent. -/
def contextEntries (context : Value) : Act Entries := do
  let s ← Act.store
  if s.truthy context then Container.pairs context else return []

/-- The globals of a program for a context and paths that have not been checked. -/
def buildUnchecked (context requirePaths globalPaths : Value) : Act Value := do
  let context ← contextEntries context
  let requirePaths ← Container.items requirePaths
  let globalPaths ← Container.items globalPaths
  build context requirePaths globalPaths

/-- The value of a term outside of any script. -/
def evaluate (t : Term) : Act Value := do
  let s ← Act.store
  t.eval (s.machine t.height) []

def call (f : Value) (args : List Value) : Act Value := do
  let s ← Act.store
  (s.machine 0).call f args

end Environment

end TemplateRecovery
