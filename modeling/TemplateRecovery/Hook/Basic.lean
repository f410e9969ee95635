import TemplateRecovery.Binding
import TemplateRecovery.Machine.Basic

/-!
# Hooks

A rendering function reports each binding by calling a hook. A hook never looks data up: it turns
its arguments into expressions and morphs and attaches them to the place it is handed.

* `Hook.params` and `Hook.hash` convert parameters and named arguments.
* `Hook.call` runs a hook; the branches of a block are recovered by the machine it is given.

A call either attaches what it has built as its very last act or leaves the tree as it was.
-/

namespace TemplateRecovery

namespace Hook

/-- A value as an expression: one that is none becomes a literal. -/
def asExpression (v : Value) : Act Value := do
  let s ← Act.store
  if s.isExpression v then return v else Act.new (.expression (.literal v))

/-- Parameters: an array, whose items are expressions or stand for literals. -/
def params (v : Value) : Act (List Value) := do
  let s ← Act.store
  match s.array? v with
  | some items => items.mapM asExpression
  | none => Act.failShape .hookParams v

/-- The entries of a mapping under the texts of their keys, in order. -/
def hashEntries : Entries → List (String × Value) → Act (List (String × Value))
  | [], done => return done
  | (k, v) :: rest, done => do
    let key ← Act.text k
    let e ← asExpression v
    hashEntries rest (Assoc.set key e done)

/-- Named arguments: null or a mapping. -/
def hash (v : Value) : Act Entries := do
  let s ← Act.store
  match v, s.entries? v with
  | .null, _ => return []
  | _, some entries => do
    let named ← hashEntries entries []
    return named.map fun (k, e) => (.str k, e)
  | v, none => Act.failShape .hookHash v

def helperName (hook : Hook) : Value → Act String
  | .str s => return s
  | v => Act.failShape (.hookName hook.name) v

/-- A helper with its parameters and named arguments, checked in this order. -/
def helperCall (hook : Hook) (name params hash : Value) : Act HelperCall := do
  let name ← helperName hook name
  let params ← Hook.params params
  let hash ← Hook.hash hash
  return ⟨.str name, .own params, .own hash⟩

def expectSlot (hook : Hook) (v : Value) : Act ObjectId := do
  let s ← Act.store
  match s.asPlaceholder? v with
  | some id => return id
  | none => Act.failShape (.hookSlot hook.name) v

/-- Recovers a branch that may be missing. -/
def branch? (m : Machine) : Value → Act Value
  | .null => return .null
  | template => m.recover template

def bindBlock (m : Machine) (slot name params hash template inverse : Value) : Act Unit := do
  let slot ← expectSlot .block slot
  let name ← helperName .block name
  match template with
  | .null => Act.fail (.shape (.missingTemplate name))
  | template => do
    Act.note (.block name (inverse != .null))
    let params ← Hook.params params
    let hash ← Hook.hash hash
    let primary ← m.recover template
    let alternate ← branch? m inverse
    Binding.bind slot (.block ⟨.str name, .own params, .own hash⟩ primary alternate)

/-- Runs a hook on the arguments that a template writes, without the environment and the context that
every hook is also given; with the wrong number of arguments nothing is done. -/
def call (m : Machine) : Hook → List Value → Act Value
  | .get, [path] =>
    match path with
    | .str p => Act.new (.expression (.path (.str p)))
    | v => Act.failShape .hookPath v
  | .concat, [params] => do
    let parts ← Hook.params params
    Act.new (.expression (.concat (.own parts)))
  | .subexpr, [name, params, hash] => do
    let c ← helperCall .subexpr name params hash
    Act.new (.expression (.subexpr c))
  | .inline, [slot, name, params, hash] => do
    let c ← helperCall .inline name params hash
    let slot ← expectSlot .inline slot
    Binding.bind slot (.inline c)
    return .null
  | .attribute, [target, _, _, value] => do
    let s ← Act.store
    match s.asAttribute? target with
    | some id => do
      let e ← asExpression value
      Binding.setValue id e
      return .null
    | none => Act.failShape .hookAttribute target
  | .element, [target, name, params, hash] => do
    let s ← Act.store
    match Document.element? s target with
    | some e => do
      e.modifiers.expectList
      let c ← helperCall .element name params hash
      Binding.addModifier e c
      return .null
    | none => Act.failShape .hookElement target
  | .content, [slot, v] => do
    let slot ← expectSlot .content slot
    Binding.bind slot (.content v)
    return .null
  | .block, [slot, name, params, hash, template] => do
    bindBlock m slot name params hash template .null
    return .null
  | .block, [slot, name, params, hash, template, inverse] => do
    bindBlock m slot name params hash template inverse
    return .null
  | _, _ => Act.fail .wrongType

/-- The arguments that a template writes among all those of a hook, which are also given the
environment and, most of them, a context. -/
def written : Hook → List Value → Option (List Value)
  | .get, _ :: _ :: rest => some rest
  | .concat, _ :: rest => some rest
  | .subexpr, _ :: _ :: rest => some rest
  | .inline, _ :: target :: _ :: rest => some (target :: rest)
  | .attribute, _ :: rest => some rest
  | .element, _ :: target :: _ :: rest => some (target :: rest)
  | .content, _ :: target :: _ :: rest => some (target :: rest)
  | .block, _ :: target :: _ :: rest => some (target :: rest)
  | _, _ => none

def callWhole (m : Machine) (hook : Hook) (args : List Value) : Act Value :=
  match written hook args with
  | some args => call m hook args
  | none => Act.fail .wrongType

end Hook

end TemplateRecovery
