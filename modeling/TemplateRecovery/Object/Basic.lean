import TemplateRecovery.Script.Basic
import TemplateRecovery.Value.Basic

/-!
# Objects

An object has an identity and parts that can change. Expressions, morphs and nodes are objects like
lists and mappings: their parts hold whatever they were given, and only printing tells whether it
makes sense.

* `Held` is a container that belongs to an object, as long as nobody else has asked for it.
* `HelperCall` is a helper name with its parameters and its named arguments.
* `Expression`, `Morph` and `Node` are the parts of a template.
* `Object` is any object.
-/

namespace TemplateRecovery

/-- The contents of a container: those of its own, or those of a container that others may hold. -/
inductive Held (α : Type) where
  | own (contents : α)
  | shared (v : Value)
  deriving Inhabited, Repr

/-- The entries of a mapping, in order. -/
abbrev Entries := List (Value × Value)

/-- The fields of an object, in order. -/
abbrev Fields := List (String × Value)

/-- The call of a helper. -/
structure HelperCall where
  name : Value
  params : Held (List Value)
  hash : Held Entries
  deriving Inhabited, Repr

/-- An expression of the template language. -/
inductive Expression where
  | literal (v : Value)
  | path (p : Value)
  | concat (parts : Held (List Value))
  | subexpr (call : HelperCall)
  deriving Inhabited, Repr

def Expression.kind : Expression → ExprKind
  | .literal _ => .literal
  | .path _ => .path
  | .concat _ => .concat
  | .subexpr _ => .subexpr

/-- A dynamic binding. -/
inductive Morph where
  | inline (call : HelperCall)
  | element (call : HelperCall)
  | attribute (key value owner : Value)
  | content (v : Value)
  | block (call : HelperCall) (primary alternate : Value)
  deriving Inhabited, Repr

def Morph.kind : Morph → MorphKind
  | .inline _ => .inline
  | .element _ => .element
  | .attribute _ _ _ => .attribute
  | .content _ => .content
  | .block _ _ _ => .block

/-- What a node is, apart from its children. -/
inductive Shape where
  | fragment
  | element (tag ns : Value) (attributes : Held Entries) (bound modifiers : Held (List Value))
  | text (contents : Value)
  | comment (contents : Value)
  | placeholder (morph parent : Value)
  deriving Inhabited, Repr

def Shape.kind : Shape → NodeKind
  | .fragment => .fragment
  | .element _ _ _ _ _ => .element
  | .text _ => .text
  | .comment _ => .comment
  | .placeholder _ _ => .placeholder

/-- A node of a template. -/
structure Node where
  shape : Shape
  children : Held (List Value) := .own []
  deriving Inhabited, Repr

/-- A function that is an object. -/
inductive Function where
  | routine (r : Routine)
  /-- Answers every call with one value. -/
  | loader (answer : Value)
  /-- Refuses templates of an older generation. -/
  | refusal

/-- Any object. Fields that were added to it from outside are kept beside its own. -/
inductive Object where
  | list (items : List Value)
  | tuple (items : List Value)
  | map (entries : Entries)
  | record (fields : Fields)
  | expression (e : Expression)
  | morph (m : Morph) (added : Fields)
  | node (n : Node) (added : Fields)
  /-- The handle with which a statement adds a modifier to an element. -/
  | slot (owner : Value) (added : Fields)
  | function (f : Function) (added : Fields)
  /-- A recording document and the namespace of its elements. -/
  | document (ns : Value)
  /-- The hooks. -/
  | hooks
  /-- What a rendering function is given to work with. -/
  | environment (document hooks : Value)

instance : Inhabited Object := ⟨.list []⟩

def Object.typeName : Object → String
  | .list _ => "list"
  | .tuple _ => "tuple"
  | .map _ => "dict"
  | .record _ => "SimpleNamespace"
  | .expression e => e.kind.typeName
  | .morph m _ => m.kind.typeName
  | .node n _ => n.shape.kind.typeName
  | .slot _ _ => "ElementSlot"
  | .function _ _ => "function"
  | .document _ => "VirtualDocument"
  | .hooks => "HookTable"
  | .environment _ _ => "HookEnvironment"

end TemplateRecovery
