import TemplateRecovery.Environment

/-!
# Asking an environment

Queries look at the globals of an environment and at what the loader answers, call what they find,
and use the capture directly. A failing query leaves the others unharmed.
-/

namespace TemplateRecovery

namespace Environment

/-- A query. -/
inductive Query where
  /-- Registers a template. -/
  | register (template : Term)
  /-- Whether a template is registered. -/
  | isRegistered
  /-- The captured template. -/
  | captured
  /-- The names of the globals, sorted. -/
  | names
  /-- What a path from the globals leads to. -/
  | global (path : String)
  /-- What a path from the answer of the loader leads to. -/
  | require (path : String)
  /-- Whether two paths lead to one object. -/
  | same (globalPath requirePath : String)
  /-- Calls what a path from the globals leads to. -/
  | callGlobal (path : String) (args : List Term)
  /-- Calls what a path from the answer of the loader leads to. -/
  | callRequire (path : String) (args : List Term)

/-- The entry of a mapping or the attribute of anything else. -/
def child (v : Value) (name : String) : Act Value := do
  let s ← Act.store
  match s.entries? v with
  | some _ => Container.item v (.str name)
  | none => Attribute.get v name

/-- What a dotted path leads to; the empty path leads nowhere else. -/
def follow (v : Value) (path : String) : Act Value :=
  if path = "" then return v else (Text.splitAt '.' path).foldlM child v

/-- What a path from the answer of the loader leads to. -/
def followRequire (globals : Value) (path : String) : Act Value := do
  let loader ← child globals "require"
  let answer ← call loader [.str "ember"]
  follow answer path

/-- Whether two values are one object; the function of a value is made anew each time it is read. -/
def identical (v w : Value) : Bool :=
  match v with
  | .method _ _ => false
  | v => v == w

def globalNames (globals : Value) : Act Value := do
  let names ← Container.items globals
  let s ← Act.store
  let names ← Act.lift (Order.sort s names)
  Act.new (.list names)

def Query.answer (globals : Value) : Query → Act Value
  | .register template => do
    let v ← evaluate template
    TemplateRecovery.register v
  | .isRegistered => do
    let s ← Act.store
    return .bool s.registered.isSome
  | .captured => Environment.captured
  | .names => globalNames globals
  | .global path => follow globals path
  | .require path => followRequire globals path
  | .same globalPath requirePath => do
    let v ← follow globals globalPath
    let w ← followRequire globals requirePath
    return .bool (identical v w)
  | .callGlobal path args => do
    let v ← follow globals path
    let args ← args.mapM evaluate
    call v args
  | .callRequire path args => do
    let v ← followRequire globals path
    let args ← args.mapM evaluate
    call v args

/-- Answers queries one after the other, each written out at its time. -/
def answers (globals : Value) : List Query → Store → List (Except Fault View) × Store
  | [], s => ([], s)
  | q :: rest, s =>
    match q.answer globals s with
    | .ok v s' =>
      let (more, last) := answers globals rest s'
      (.ok (s'.view v) :: more, last)
    | .error fault s' =>
      let (more, last) := answers globals rest s'
      (.error fault :: more, last)

end Environment

end TemplateRecovery
