import TemplateRecovery.Attribute.Basic
import TemplateRecovery.Binding
import TemplateRecovery.Opcode.Expression

/-!
# Statements

A declarative template lists one tagged array for each of its slots. Interpreting a statement
attaches the morph or value it describes to its slot. What follows the positional arguments of a
statement is ignored.

* `Statement.ofArgs` gives the arguments of a statement their names.
* `Statement.apply` attaches what a statement describes.
-/

namespace TemplateRecovery

namespace Opcode

/-- The tags of statements. -/
inductive StatementTag where
  | inline
  | attribute
  | element
  | content
  | block
  deriving DecidableEq, Inhabited, Repr

def StatementTag.name : StatementTag → String
  | .inline => "inline"
  | .attribute => "attribute"
  | .element => "element"
  | .content => "content"
  | .block => "block"

def StatementTag.all : List StatementTag := [.inline, .attribute, .element, .content, .block]

def StatementTag.ofValue? : Value → Option StatementTag
  | .str s => all.find? (·.name == s)
  | _ => none

def StatementTag.arity : StatementTag → Nat
  | .inline => 3
  | .attribute => 2
  | .element => 3
  | .content => 1
  | .block => 5

/-- A statement with its positional arguments. -/
inductive Statement where
  | inline (name params hash : Value)
  | attribute (value : Value)
  | element (name params hash : Value)
  | content (v : Value)
  | block (name params hash template inverse : Value)

/-- The statement with this tag and these arguments; further arguments are ignored. -/
def Statement.ofArgs (d : Display) (tag : StatementTag) (args : List Value) :
    Except Fault Statement :=
  match tag, args with
  | .inline, name :: params :: hash :: _ => .ok (.inline name params hash)
  | .attribute, _ :: value :: _ => .ok (.attribute value)
  | .element, name :: params :: hash :: _ => .ok (.element name params hash)
  | .content, v :: _ => .ok (.content v)
  | .block, name :: params :: hash :: template :: inverse :: _ =>
    .ok (.block name params hash template inverse)
  | tag, args => .error (.ofShape (.arity tag.name tag.arity none (args.map d.view)))

/-- The tag and the arguments of an array. -/
def splitStatement (s : Store) (v : Value) : Except Fault (StatementTag × List Value) :=
  match s.array? v with
  | none => .error (.shape (.notStatement (s.view v)))
  | some [] => .error (.shape (.emptyArray .statement))
  | some (tag :: args) =>
    match StatementTag.ofValue? tag with
    | some t => .ok (t, args)
    | none => unknownTag s.display .statement (Raw.ofValue s tag)

def expectSlot (tag : StatementTag) (v : Value) : Act ObjectId := do
  let s ← Act.store
  match s.asPlaceholder? v with
  | some id => return id
  | none => Act.failShape (.notSlot tag.name) v

/-- The element to which an element statement adds a modifier: the parent of its slot. Its modifiers are
looked up at once. -/
def expectOwner (v : Value) : Act Document.Element := do
  let parent ← Attribute.find? v "parent"
  let s ← Act.store
  match parent.bind (Document.element? s) with
  | some e => do
    e.modifiers.expectList
    return e
  | none => Act.fail (.shape .notElementSlot)

/-- The position of a template among so many; truth values are no indices here. -/
def templatePosition? (count : Nat) : Value → Option Nat
  | .int i => if 0 ≤ i ∧ i < count then some i.toNat else none
  | _ => none

def childTemplate (templates index : Value) : Act Value := do
  let count ← Container.length templates
  match templatePosition? count index with
  | some p => Container.item templates (.int p)
  | none => Act.failShape (fun shown => .templateIndex StatementTag.block.name shown count) index

/-- Recovers the template that a block refers to. -/
def branch (nested : Value → Act Value) (templates index : Value) : Act Value := do
  let template ← childTemplate templates index
  nested template

/-- Recovers the second template that a block refers to, if it refers to one. -/
def branch? (nested : Value → Act Value) (templates : Value) : Value → Act Value
  | .null => return .null
  | index => branch nested templates index

/-- Attaches what a statement describes to its slot. -/
def Statement.apply (nested : Value → Act Value) (slot templates : Value) :
    Statement → Act Unit
  | .inline name ps h => do
    let c ← helperCall "inline" name ps h
    let id ← expectSlot .inline slot
    Binding.bind id (.inline c)
  | .attribute value => do
    let s ← Act.store
    match s.asAttribute? slot with
    | none => Act.failShape .notAttribute slot
    | some id => do
      let e ← paramOf value
      Binding.setValue id e
  | .element name ps h => do
    let e ← expectOwner slot
    let c ← helperCall "element" name ps h
    Binding.addModifier e c
  | .content v => do
    let id ← expectSlot .content slot
    Binding.bind id (.content v)
  | .block name ps h template inverse => do
    let id ← expectSlot .block slot
    let c ← helperCall "block" name ps h
    let primary ← branch nested templates template
    let alternate ← branch? nested templates inverse
    Binding.bind id (.block c primary alternate)

def interpret (nested : Value → Act Value) (slot statement templates : Value) : Act Unit := do
  let s ← Act.store
  let (tag, args) ← Act.lift (splitStatement s statement)
  Act.note (.statement tag.name (listText ((args.take 1).map fun v => (s.view v).repr)))
  let st ← Act.lift (Statement.ofArgs s.display tag args)
  st.apply nested slot templates

end Opcode

end TemplateRecovery
