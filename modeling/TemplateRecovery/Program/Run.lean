import TemplateRecovery.Environment
import TemplateRecovery.Program.Basic

/-!
# Running programs

Statements run one after the other on a mapping of globals; the first failing statement ends the
run, and what was done before it stays done.

* `Program.lookUp` is the value of a name: a global, or else something every program can see.
* `Program.Statement.run` runs a statement, `Program.run` a program.
* `Program.execute` runs a program with the two names that a run adds to its globals and removes
  again.
* `Program.evaluate` runs a program on a copy of a context, or on the context itself.
-/

namespace TemplateRecovery

namespace Program

/-- Where a run finds names: its globals, and the built-in names that the globals may replace. -/
structure Frame where
  globals : ObjectId
  builtins : Value

def entriesOf (s : Store) (id : ObjectId) : Entries := (s.entries? (.object id)).getD []

/-- The names that always stand for one value. -/
def constant? (name : String) : Option Value :=
  match name with
  | "None" => some .null
  | "True" => some (.bool true)
  | "False" => some (.bool false)
  | "__debug__" => some (.bool true)
  | _ => none

/-- The value of a built-in name; only a mapping can hold these names. -/
def builtin (s : Store) (frame : Frame) (name : String) : Except Fault Value :=
  match s.entries? frame.builtins with
  | some entries =>
    match s.findName? name entries with
    | some v => .ok v
    | none => .error (.noName name)
  | none => .error .wrongType

def lookUp (frame : Frame) (name : String) : Act Value := do
  let s ← Act.store
  match constant? name, s.findName? name (entriesOf s frame.globals) with
  | some v, _ => return v
  | none, some v => return v
  | none, none => Act.lift (builtin s frame name)

def withName (s : Store) (name : String) (v : Value) : Object → Object
  | .map entries => .map (s.insert (.str name) v entries)
  | o => o

def withoutName (s : Store) (name : String) : Object → Object
  | .map entries => .map (s.erase (.str name) entries)
  | o => o

def assign (frame : Frame) (name : String) (v : Value) : Act Unit := do
  let s ← Act.store
  Act.modify frame.globals (withName s name v)

def follow (v : Value) (path : List String) : Act Value := path.foldlM Attribute.get v

def Chain.resolve (frame : Frame) : Chain → Act Value
  | .require arg path => do
    let loader ← lookUp frame "require"
    let arg ← Environment.evaluate arg
    let answer ← Environment.call loader [arg]
    follow answer path
  | .global name path => do
    let v ← lookUp frame name
    follow v path

def registerWith (frame : Frame) (chain : Chain) (surface : String) (template : Act Value) :
    Act Value := do
  let root ← chain.resolve frame
  let function ← follow root [surface, "template"]
  let template ← template
  Environment.call function [template]

/-- The double nearest to a whole number that is not too large. -/
def nearest (n : Int) : Except Fault Binary64 :=
  match Binary64.ofInt n with
  | .infinity _ => .error .overflow
  | x => .ok x

def addNumbers : Int ⊕ Binary64 → Int ⊕ Binary64 → Except Fault (Int ⊕ Binary64)
  | .inl m, .inl n => .ok (.inl (m + n))
  | .inl m, .inr y => do
    let x ← nearest m
    return .inr (x.add y)
  | .inr x, .inl n => do
    let y ← nearest n
    return .inr (x.add y)
  | .inr x, .inr y => .ok (.inr (x.add y))

def numberValue : Int ⊕ Binary64 → Act Value
  | .inl n => return .int n
  | .inr x => Act.newFloat x

/-- The sum of two values; a list is extended in place. -/
def sum (v w : Value) : Act Value := do
  let s ← Act.store
  match v, w, s.asObject? v, s.asObject? w with
  | _, _, some (id, .list _), _ => do
    let items ← Container.items w
    Act.modify id (Container.withItems items)
    return v
  | .str a, .str b, _, _ => return .str (a ++ b)
  | _, _, some (_, .tuple a), some (_, .tuple b) => Act.new (.tuple (a ++ b))
  | v, w, _, _ =>
    match v.number?, w.number? with
    | some a, some b => do
      let n ← Act.lift (addNumbers a b)
      numberValue n
    | _, _ => Act.fail .wrongType

def delete (frame : Frame) (name : String) : Act Unit := do
  let s ← Act.store
  match s.findName? name (entriesOf s frame.globals) with
  | some _ => Act.modify frame.globals (withoutName s name)
  | none => Act.fail (.noName name)

/-- Imports a module by the function that the built-in names give for it, if they give one. -/
def importModule (frame : Frame) (name : String) : Act Unit := do
  let s ← Act.store
  match (s.entries? frame.builtins).bind (s.findName? "__import__") with
  | some f => do
    let globals := .object frame.globals
    let v ← Environment.call f [.str name, globals, globals, .null, .int 0]
    assign frame name v
  | none => Act.fail .noImport

/-- Fails with a failure of the type that a name stands for; nothing else can be raised. -/
def raise (frame : Frame) (kind message : String) : Act Unit := do
  let type ← lookUp frame kind
  match type with
  | .typeObject name =>
    if Builtin.failureTypes.contains name then Act.fail (.raised name message)
    else Act.fail .wrongType
  | f => do
    let _ ← Environment.call f [.str message]
    Act.fail .wrongType

def Statement.run (frame : Frame) : Statement → Act Unit
  | .register chain template => do
    let _ ← registerWith frame chain "HTMLBars" (Environment.evaluate template)
  | .registerName chain name => do
    let _ ← registerWith frame chain "HTMLBars" (lookUp frame name)
  | .exportTemplate chain template => do
    let v ← registerWith frame chain "HTMLBars" (Environment.evaluate template)
    let owner ← lookUp frame "module"
    Attribute.set owner "exports" v
  | .legacy chain template => do
    let _ ← registerWith frame chain "Handlebars" (Environment.evaluate template)
  | .read chain => do
    let _ ← chain.resolve frame
  | .alias name chain => do
    let v ← chain.resolve frame
    assign frame name v
  | .setName name v => do
    let v ← Environment.evaluate v
    assign frame name v
  | .setAttribute name path attr v => do
    let v ← Environment.evaluate v
    let root ← lookUp frame name
    let owner ← follow root path
    Attribute.set owner attr v
  | .add name v => do
    let old ← lookUp frame name
    let v ← Environment.evaluate v
    let new ← sum old v
    assign frame name new
  | .delete name => Program.delete frame name
  | .append name v => do
    let container ← lookUp frame name
    let method ← Attribute.get container "append"
    let v ← Environment.evaluate v
    let _ ← Environment.call method [v]
  | .setItem name key v => do
    let v ← Environment.evaluate v
    let container ← lookUp frame name
    let key ← Environment.evaluate key
    Container.setItem container key v
  | .importModule name => Program.importModule frame name
  | .raise kind message => Program.raise frame kind message

def run (frame : Frame) : Program → Act Unit
  | [] => return ()
  | statement :: rest => do
    statement.run frame
    run frame rest

/-- The name under which a run keeps the built-in names. -/
def builtinsName : String := "__builtins__"

/-- The names that a run adds to its globals, unless they are there. -/
def injectedNames : List String := [builtinsName, "__name__"]

/-- The injected names that the globals lack. -/
def missingNames (s : Store) (entries : Entries) : List String :=
  injectedNames.filter fun name => (s.findName? name entries).isNone

/-- A fresh mapping of the built-in names. -/
def newBuiltins : Act Value :=
  Act.new (.map (Builtin.table.map fun (name, v) => (.str name, v)))

/-- Adds the injected names that the globals lack. -/
def inject (globals : ObjectId) (missing : List String) : Act Unit := do
  let builtins ← newBuiltins
  let s ← Act.store
  Act.modify globals fun o =>
    missing.foldl
      (fun o name => withName s name (if name = builtinsName then builtins else .str "__template__")
        o) o

def eject (globals : ObjectId) (names : List String) : Act Unit := do
  let s ← Act.store
  Act.modify globals fun o => names.foldl (fun o name => withoutName s name o) o

/-- Runs a program on globals. The names that the run adds are removed again, even if the program
assigned them or failed. -/
def execute (program : Program) (globals : ObjectId) : Act Unit := do
  let s ← Act.store
  let missing := missingNames s (entriesOf s globals)
  inject globals missing
  let s ← Act.store
  let builtins := (s.findName? builtinsName (entriesOf s globals)).getD .null
  Act.always (run ⟨globals, builtins⟩ program) (eject globals missing)

/-- Runs a program on globals that may be anything; only a mapping will do. -/
def executeOn (program : Program) (globals : Value) : Act Unit := do
  let s ← Act.store
  match globals, s.asObject? globals with
  | _, some (id, .map _) => execute program id
  | _, some (_, .list _) => Act.noAttribute globals "setdefault"
  | _, some (_, .tuple _) => Act.noAttribute globals "setdefault"
  | .str _, _ => Act.noAttribute globals "setdefault"
  | _, _ => Act.fail .wrongType

/-- The globals for a run in a context: a copy of it, or itself. -/
def globalsFor (context : Value) (copied : Bool) : Act Value := do
  match context, copied with
  | .null, _ => Act.new (.map [])
  | context, true => do
    let entries ← Container.pairs context
    Act.new (.map entries)
  | context, false => return context

/-- Runs a program in a context and returns its globals. -/
def evaluate (program : Program) (context : Value) (copied : Bool) : Act Value := do
  let globals ← globalsFor context copied
  executeOn program globals
  return globals

/-- Keeps a source in a context instead of running it, and returns the globals. -/
def record (source : String) (context : Value) (copied : Bool) : Act Value := do
  let globals ← globalsFor context copied
  Container.setItem globals (.str "ran") (.str source)
  return globals

end Program

end TemplateRecovery
