import TemplateRecovery.Attribute.Basic
import TemplateRecovery.Fault.Number
import TemplateRecovery.Hook.Basic

/-!
# Running scripts

A function runs with fresh registers that hold its parameters. Its steps call the document or a
hook; the first failing step ends the run.

* `Term.eval` evaluates an argument, left to right.
* `Callee.perform` does a call.
* `Routine.run` runs a function on arguments.
-/

namespace TemplateRecovery

/-- The registers of a running function. -/
abbrev Registers := List (String × Value)

/-- The value of a register; an unset register holds null. -/
def Registers.value (regs : Registers) (name : String) : Value := (regs.lookup name).getD .null

/-- All arguments of a hook: those that a template writes, and the environment and the context. -/
def Hook.whole (environment context : Value) : Hook → List Value → List Value
  | .get, args => environment :: context :: args
  | .concat, args => environment :: args
  | .subexpr, args => environment :: context :: args
  | .attribute, args => environment :: args
  | _, target :: args => environment :: target :: context :: args
  | _, [] => [environment, context]

def callHook (m : Machine) (regs : Registers) (hooks found : Value) (name : String)
    (args : List Value) : Act Value := do
  let s ← Act.store
  match s.asObject? hooks, Hook.ofName? name with
  | some (_, .hooks), some hook => Hook.call m hook args
  | _, some hook =>
    m.call found (hook.whole (regs.value "env") (regs.value "context") args)
  | _, none => m.call found args

/-- Fails as the code that was run asks for. -/
def failAs (kind : String) : Value → Act Value
  | .str message => Act.fail (.raised kind message)
  | v =>
    if kind = "KeyError" then Act.noKey v
    else do
      let message ← Act.text v
      Act.fail (.raised kind message)

def Callee.perform (m : Machine) (regs : Registers) : Callee → List Value → Act Value
  | .document method, args => do
    let f ← Attribute.get (regs.value "dom") method
    m.call f args
  | .hook name, args => do
    let f ← Attribute.get (regs.value "hooks") name
    callHook m regs (regs.value "hooks") f name args
  | .hookItem name, args => do
    let f ← Container.item (regs.value "hooks") (.str name)
    callHook m regs (regs.value "hooks") f name args
  | .environmentItem name, _ => Container.item (regs.value "env") (.str name)
  | .value, [v] => return v
  | .raise, [.str kind, message] => failAs kind message
  | _, _ => Act.fail .wrongType

/-- The number with a fraction that a text stands for. -/
def floatOf (text : String) : Act Value := do
  let x ← Act.lift (Fault.readFloat text)
  Act.newFloat x

def newExpression (e : Expression) : Act Value := Act.new (.expression e)

def newMorph (m : Morph) : Act Value := Act.new (.morph m [])

def newNode (shape : Shape) (children : List Value) : Act Value :=
  Act.new (.node ⟨shape, .own children⟩ [])

/-- Binds a key among entries; only values that may be keys are keys. -/
def bindEntry (entries : Entries) (key v : Value) : Act Entries := do
  let s ← Act.store
  if s.isKey key then return s.insert key v entries else Act.fail .wrongType

mutual

def Term.eval (m : Machine) (regs : Registers) : Term → Act Value
  | .null => return .null
  | .bool b => return .bool b
  | .int n => return .int n
  | .float text => floatOf text
  | .str s => return .str s
  | .list items => do
    let items ← evalTerms m regs items
    Act.new (.list items)
  | .tuple items => do
    let items ← evalTerms m regs items
    Act.new (.tuple items)
  | .map entries => do
    let entries ← evalEntries m regs entries []
    Act.new (.map entries)
  | .object fields => do
    let fields ← evalFields m regs fields
    Act.new (.record fields)
  | .register name => return regs.value name
  | .documentField name => Attribute.get (regs.value "dom") name
  | .call callee args => do
    let args ← evalTerms m regs args
    callee.perform m regs args
  | .routine r => Act.new (.function (.routine r) [])
  | .literal t => do
    let v ← t.eval m regs
    newExpression (.literal v)
  | .path t => do
    let v ← t.eval m regs
    newExpression (.path v)
  | .concat parts => do
    let parts ← evalTerms m regs parts
    newExpression (.concat (.own parts))
  | .subexpr name params hash => do
    let name ← name.eval m regs
    let params ← evalTerms m regs params
    let hash ← evalEntries m regs hash []
    newExpression (.subexpr ⟨name, .own params, .own hash⟩)
  | .fragment children => do
    let children ← evalTerms m regs children
    newNode .fragment children
  | .element tag ns attributes bound modifiers children => do
    let tag ← tag.eval m regs
    let ns ← ns.eval m regs
    let attributes ← evalEntries m regs attributes []
    let bound ← evalTerms m regs bound
    let modifiers ← evalTerms m regs modifiers
    let children ← evalTerms m regs children
    newNode (.element tag ns (.own attributes) (.own bound) (.own modifiers)) children
  | .text t => do
    let v ← t.eval m regs
    newNode (.text v) []
  | .comment t => do
    let v ← t.eval m regs
    newNode (.comment v) []
  | .placeholder t => do
    let v ← t.eval m regs
    newNode (.placeholder v .null) []
  | .inline name params hash => do
    let name ← name.eval m regs
    let params ← evalTerms m regs params
    let hash ← evalEntries m regs hash []
    newMorph (.inline ⟨name, .own params, .own hash⟩)
  | .modifier name params hash => do
    let name ← name.eval m regs
    let params ← evalTerms m regs params
    let hash ← evalEntries m regs hash []
    newMorph (.element ⟨name, .own params, .own hash⟩)
  | .attribute key value => do
    let key ← key.eval m regs
    let value ← value.eval m regs
    newMorph (.attribute key value .null)
  | .content t => do
    let v ← t.eval m regs
    newMorph (.content v)
  | .block name params hash primary alternate => do
    let name ← name.eval m regs
    let params ← evalTerms m regs params
    let hash ← evalEntries m regs hash []
    let primary ← primary.eval m regs
    let alternate ← alternate.eval m regs
    newMorph (.block ⟨name, .own params, .own hash⟩ primary alternate)

/-- The values of arguments, left to right. -/
def evalTerms (m : Machine) (regs : Registers) : List Term → Act (List Value)
  | [] => return []
  | t :: rest => do
    let v ← t.eval m regs
    let values ← evalTerms m regs rest
    return v :: values

/-- More entries of a mapping: each key before its value, and both bound before the next ones. -/
def evalEntries (m : Machine) (regs : Registers) :
    List (Term × Term) → Entries → Act Entries
  | [], entries => return entries
  | (k, t) :: rest, entries => do
    let k ← k.eval m regs
    let v ← t.eval m regs
    let entries ← bindEntry entries k v
    evalEntries m regs rest entries

def evalFields (m : Machine) (regs : Registers) :
    List (String × Term) → Act (List (String × Value))
  | [] => return []
  | (k, t) :: rest => do
    let v ← t.eval m regs
    let fields ← evalFields m regs rest
    return (k, v) :: fields

end

def Step.run (m : Machine) (regs : Registers) (step : Step) : Act Registers := do
  let args ← evalTerms m regs step.args
  let v ← step.callee.perform m regs args
  match step.target with
  | some name => return Assoc.set name v regs
  | none => return regs

namespace Routine

def parameters (kind : RoutineKind) (args : List Value) : Act Registers :=
  match kind, args with
  | .fragment, [document] => return [("dom", document)]
  | .slots, [document, fragment, contextual] =>
    return [("dom", document), ("fragment", fragment), ("contextual", contextual)]
  | .render, [context, environment, contextual] => do
    let document ← Attribute.get environment "dom"
    let hooks ← Attribute.get environment "hooks"
    return [("dom", document), ("context", context), ("env", environment), ("hooks", hooks),
      ("contextual", contextual)]
  | _, _ => Act.fail .wrongType

/-- Runs a function; with the wrong number of arguments nothing is done. -/
def run (m : Machine) (r : Routine) (args : List Value) : Act Value := do
  let regs ← parameters r.kind args
  let regs ← r.steps.foldlM (Step.run m) regs
  r.result.eval m regs

end Routine

end TemplateRecovery
