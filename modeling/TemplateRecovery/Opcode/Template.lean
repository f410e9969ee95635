import TemplateRecovery.Artifact.Revision
import TemplateRecovery.Machine.Basic
import TemplateRecovery.Opcode.Statement

/-!
# Declarative templates

A template of the second generation has a builder for its static part, a builder for its slots, and
one statement for each slot. It is recovered by running the two builders and interpreting the
statements in order, each at its slot.

* `Opcode.validate` checks the members of a template in a fixed order.
* `Opcode.recoverWithin` recovers a template and everything nested in it to some depth.
-/

namespace TemplateRecovery

namespace Opcode

def requireFunction (template : Value) (name : String) : Act Unit := do
  let found ← Artifact.member name template
  let s ← Act.store
  if s.isCallable found then return () else Act.fail (.artifact (.notFunction name))

def requireArray (template : Value) (name : String) : Act Unit := do
  let found ← Artifact.member name template
  let s ← Act.store
  if (s.array? found).isSome then return () else Act.fail (.artifact (.notArray name))

def validateRevision (s : Store) (revision : Value) : Except Fault Unit :=
  if !s.truthy revision then .error (.artifact .noMetaRevision)
  else match revision with
    | .str text =>
      if Revision.isRecognized text then .ok ()
      else .error (.artifact (.revisionUnrecognized text))
    | v => .error (.artifact (.revisionNotText (s.view v)))

def validateMeta (template : Value) : Act Unit := do
  let data ← Artifact.member "meta" template
  let s ← Act.store
  if s.truthy data then do
    let revision ← Artifact.member "revision" data
    let s ← Act.store
    Act.lift (validateRevision s revision)
  else Act.fail (.artifact .noMeta)

/-- Checks the members of a template and names the first that is missing or malformed. -/
def validate (template : Value) : Act Unit := do
  let s ← Act.store
  if s.truthy template then do
    validateMeta template
    requireFunction template "buildFragment"
    requireFunction template "buildRenderNodes"
    requireArray template "statements"
    requireArray template "templates"
  else Act.fail (.artifact .noTemplate)

def callBuilder (m : Machine) (template : Value) (name : String) (args : List Value) :
    Act Value := do
  let builder ← Artifact.member name template
  m.call builder args

/-- Checks that the builder of the static part returned a node. -/
def expectFragment (v : Value) : Act Unit := do
  let s ← Act.store
  match s.asNode? v with
  | some _ => return ()
  | none => Act.failShape .fragmentResult v

/-- The array that the builder of the slots returned. -/
def expectSlots (v : Value) : Act (List Value) := do
  let s ← Act.store
  match s.array? v with
  | some items => return items
  | none => Act.failShape .slotsResult v

/-- The statements of a template, which are counted before they are read. The builders may have left
something else than an array there. -/
def statementsOf (v : Value) : Act (List Value) := do
  let _ ← Container.length v
  Container.items v

/-- Interprets the statements in order, each at its slot. -/
def bindAll (nested : Value → Act Value) (templates : Value) : List (Value × Value) → Act Unit
  | [] => return ()
  | (slot, statement) :: rest => do
    interpret nested slot statement templates
    bindAll nested templates rest

/-- Interprets as many statements as there are slots. -/
def bindSlots (nested : Value → Act Value) (slots statements : List Value) (templates : Value) :
    Act Unit :=
  if slots.length = statements.length then bindAll nested templates (slots.zip statements)
  else Act.fail (.mismatch statements.length slots.length)

/-- Recovers a template whose blocks are nested at most so deep: its root. -/
def recoverWithin (m : Machine) : Nat → Value → Act Value
  | 0, _ => Act.fail .endless
  | depth + 1, template => do
    validate template
    let document ← Act.new (.document .null)
    let fragment ← callBuilder m template "buildFragment" [document]
    expectFragment fragment
    let returned ← callBuilder m template "buildRenderNodes" [document, fragment, .null]
    let slots ← expectSlots returned
    let statements ← Artifact.member "statements" template
    let templates ← Artifact.member "templates" template
    let statements ← statementsOf statements
    bindSlots (recoverWithin m depth) slots statements templates
    return fragment

end Opcode

end TemplateRecovery
