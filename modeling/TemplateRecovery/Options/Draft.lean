import TemplateRecovery.Container
import TemplateRecovery.Options.Basic

/-!
# Drafts of options

A draft holds options whose overrides have not been checked: its paths may be any values, and so may
its step of indentation.
-/

namespace TemplateRecovery

namespace Options

/-- Options before they are checked. -/
structure Draft where
  context : Entries
  requirePaths : List Value
  globalPaths : List Value
  indent : Value

def toDraft (o : Options) : Draft where
  context := o.context.map fun (k, v) => (.str k, v)
  requirePaths := o.requirePaths.map .str
  globalPaths := o.globalPaths.map .str
  indent := .int o.indent

/-- The draft with one override applied; null leaves it as it is. -/
def Draft.override (d : Draft) (key v : Value) : Act Draft := do
  let s ← Act.store
  match key, v, s.entries? v with
  | .str _, .null, _ => return d
  | .str "require_ember_paths", v, _ => do
    let items ← Container.items v
    return { d with requirePaths := d.requirePaths ++ items }
  | .str "global_paths", v, _ => do
    let items ← Container.items v
    return { d with globalPaths := d.globalPaths ++ items }
  | .str "context", _, some entries =>
    return { d with context := entries.foldl (fun c (k, v) => s.insert k v c) d.context }
  | .str "indent", v, _ => return { d with indent := v }
  | _, _, _ => Act.fail .wrongType

/-- The draft with the entries of a mapping applied in order. -/
def Draft.merge (d : Draft) (overrides : Value) : Act Draft := do
  let s ← Act.store
  match s.entries? overrides with
  | some entries => entries.foldlM (fun d (k, v) => d.override k v) d
  | none => Act.fail .wrongType

end Options

end TemplateRecovery
