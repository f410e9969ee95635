import TemplateRecovery.Builtin.Function
import TemplateRecovery.Document.Call
import TemplateRecovery.Hook.Template
import TemplateRecovery.Method.Mapping
import TemplateRecovery.Method.Number
import TemplateRecovery.Method.Part
import TemplateRecovery.Method.Sequence
import TemplateRecovery.Script.Height
import TemplateRecovery.Script.Run

/-!
# Calls

Any value can be asked to run on arguments. Functions of a script run their script, the function of a
value works on that value, and what is no function refuses.

* `Machine.callWith` calls a value, one level deeper than the machine it is given.
* `Machine.ofDepth` is the machine that can nest calls to some depth.
* `Store.depth` bounds how deeply the functions of a store can be nested in one another.
-/

namespace TemplateRecovery

/-- Registers a template and returns it; only one can be registered. -/
def register (template : Value) : Act Value := fun s =>
  match s.registered with
  | some _ => .error .secondRegistration { s with fillings := .call template :: s.fillings }
  | none =>
    .ok template
      { s with registered := some template,
               fillings := .call template :: s.fillings,
               log := s.log.push (.registered (s.typeName template)) }

namespace Machine

def callFunction (m : Machine) : Function → List Value → Act Value
  | .routine r, args => r.run m args
  | .loader answer, _ => return answer
  | .refusal, _ => Act.fail .legacyRegistration

def callDocument (id : ObjectId) (name : String) (args : List Value) : Act Value :=
  match Document.Method.ofName? name with
  | some method => Document.call id method args
  | none => Act.fail .wrongType

def callHooks (m : Machine) (v : Value) (name : String) (args : List Value) : Act Value :=
  match Hook.ofName? name, args with
  | some hook, args => hook.callWhole m args
  | none, [key] => if name = "__getitem__" then Container.item v key else Act.fail .wrongType
  | none, _ => Act.fail .wrongType

def callOfObject (m : Machine) (id : ObjectId) (o : Object) (name : String) (args : List Value) :
    Act Value :=
  match o with
  | .list items => Method.callList id items name args
  | .tuple items => Method.callTuple id items name args
  | .map entries => Method.callMap id entries name args
  | .document _ => callDocument id name args
  | .hooks => callHooks m (.object id) name args
  | .environment _ _ => callHooks m (.object id) name args
  | .function _ _ => if name = "__call__" then m.call (.object id) args else Act.fail .wrongType
  | o => Method.callPart (.object id) o name args

/-- The answer to a comparison, if a function is one. -/
def compared? (s : Store) (name : String) (owner : Value) : List Value → Option (Act Value)
  | [w] => Method.compare? s name owner w
  | _ => none

def callMethod (m : Machine) (owner : Value) (name : String) (args : List Value) : Act Value := do
  let s ← Act.store
  match name, args with
  | "__str__", [] => do
    let text ← Act.text owner
    return .str text
  | "__repr__", [] => do
    let text ← Act.lift (Fault.written (s.view owner))
    return .str text
  | "__format__", [.str ""] => do
    let text ← Act.text owner
    return .str text
  | "__getattribute__", [.str field] => Attribute.get owner field
  | "__setattr__", [.str field, w] => do
    Attribute.set owner field w
    return .null
  | name, args =>
    match owner, args, compared? s name owner args with
    | .typeObject _, v :: rest, _ => m.call (.method v name) rest
    | _, _, some answer => answer
    | .str text, args, _ => Method.callText text name args
    | .object id, args, _ =>
      match s.object? id with
      | some o => callOfObject m id o name args
      | none => Act.fail .wrongType
    | .moment day, [], _ =>
      if name = "isoformat" then
        return .str (day.text.map fun c => if c = ' ' then 'T' else c)
      else Act.fail .wrongType
    | .registrar, args, _ => if name = "__call__" then m.call owner args else Act.fail .wrongType
    | .builtin _, args, _ => if name = "__call__" then m.call owner args else Act.fail .wrongType
    | .method _ _, args, _ => if name = "__call__" then m.call owner args else Act.fail .wrongType
    | owner, args, _ => Method.callNumber owner name args

def callWith (m : Machine) (f : Value) (args : List Value) : Act Value := do
  let s ← Act.store
  match f with
  | .registrar =>
    match args with
    | [template] => register template
    | _ => Act.fail .wrongType
  | .builtin name => Builtin.callFunction name args
  | .typeObject name => Builtin.construct name args
  | .method owner name => callMethod m owner name args
  | .object id =>
    match s.object? id with
    | some (.function f _) => callFunction m f args
    | _ => Act.fail .wrongType
  | _ => Act.fail .wrongType

/-- The machine that can nest calls so deep. -/
def ofDepth : Nat → Machine
  | 0 => exhausted
  | depth + 1 =>
    let m := ofDepth depth
    ⟨Hook.recover m, callWith m⟩

end Machine

/-- How deeply what an object holds can nest calls. -/
def Object.depth : Object → Nat
  | .function (.routine r) _ => 2 * r.height + 2
  | _ => 2

/-- How deeply calls can be nested in a store: each function runs within a bounded number of levels of
its own, and nothing is nested in itself. -/
def Store.depth (s : Store) : Nat := s.objects.foldl (fun n o => n + o.depth) 4

/-- The machine that is able to run everything in a store, and terms of some height besides. -/
def Store.machine (s : Store) (height : Nat) : Machine := Machine.ofDepth (s.depth + 2 * height)

end TemplateRecovery
