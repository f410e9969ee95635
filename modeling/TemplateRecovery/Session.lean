import TemplateRecovery.Recover

/-!
# Sessions

A session works on one document and one hook table, step by step. Besides the calls of a script its
steps can interpret a statement, recover a template, or print a node. A failing step keeps no result
and the session goes on.
-/

namespace TemplateRecovery

namespace Session

/-- What a step of a session does. -/
inductive Action where
  | call (callee : Callee)
  /-- Interprets a statement at a slot, with the given templates. -/
  | statement
  /-- Recovers a template with a rendering function. -/
  | hookTemplate
  /-- Recovers a declarative template. -/
  | opcodeTemplate
  /-- The text of a node or morph, with an indentation and a step if they are given. -/
  | print
  /-- The plain text of a value. -/
  | plainText
  deriving DecidableEq, Inhabited, Repr

/-- A step of a session. -/
structure Step where
  target : Option String
  action : Action
  args : List Term

def start : Act Registers := do
  let environment ← Hook.newEnvironment
  Routine.parameters .render [.null, environment, .null]

/-- The text of a node or morph; anything else is asked for a function that gives it. -/
def printed (m : Machine) (v indent step : Value) : Act Value := do
  let s ← Act.store
  if s.isPrinted v then Method.printAt v indent step
  else do
    let f ← Attribute.get v "to_string"
    m.call f [indent, step]

/-- Does what a step says with evaluated arguments. -/
def Action.perform (m : Machine) (regs : Registers) : Action → List Value → Act Value
  | .call callee, args => callee.perform m regs args
  | .statement, [slot, st, templates] => do
    Opcode.interpret Recover.opcodes slot st templates
    return .null
  | .hookTemplate, [template] => Recover.hooks template
  | .opcodeTemplate, [template] => Recover.opcodes template
  | .print, [v] => printed m v (.int 0) .null
  | .print, [v, indent] => printed m v indent .null
  | .print, [v, indent, step] => printed m v indent step
  | .plainText, [v] => do
    let text ← Act.text v
    return .str text
  | _, _ => Act.fail .wrongType

def Step.result (step : Step) (regs : Registers) : Act Value := do
  let s ← Act.store
  let m := s.machine (termsHeight step.args)
  let args ← evalTerms m regs step.args
  let s ← Act.store
  step.action.perform (s.machine 0) regs args

def Step.keep (step : Step) (v : Value) (regs : Registers) : Registers :=
  match step.target with
  | some name => Assoc.set name v regs
  | none => regs

/-- What a step showed: its result, and the watched register after it. -/
structure Outcome where
  result : Except Fault View
  watched : View

def runFrom (watch : String) : List Step → Registers → Store → List Outcome
  | [], _, _ => []
  | step :: rest, regs, s =>
    match step.result regs s with
    | .ok v s' =>
      let regs := step.keep v regs
      ⟨.ok (s'.view v), s'.view (regs.value watch)⟩ :: runFrom watch rest regs s'
    | .error fault s' =>
      ⟨.error fault, s'.view (regs.value watch)⟩ :: runFrom watch rest regs s'

def run (watch : String) (steps : List Step) : List Outcome :=
  match start {} with
  | .ok regs s => runFrom watch steps regs s
  | .error fault _ => [⟨.error fault, .null⟩]

end Session

end TemplateRecovery
