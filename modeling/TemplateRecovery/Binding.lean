import TemplateRecovery.Document.Basic

/-!
# Bindings

The three places in a tree that a binding can change: the morph of a placeholder, the value of a
bound attribute, and the modifiers of an element.
-/

namespace TemplateRecovery

namespace Binding

/-- The shape of a placeholder that is bound to a morph. -/
def bound (m : Value) : Shape → Shape
  | .placeholder _ parent => .placeholder m parent
  | shape => shape

def bind (slot : ObjectId) (m : Morph) : Act Unit := do
  let morph ← Act.new (.morph m [])
  Document.modifyShape slot (bound morph)

/-- A bound attribute with its value. -/
def withValue (v : Value) : Object → Object
  | .morph (.attribute key _ owner) added => .morph (.attribute key v owner) added
  | o => o

def setValue (target : ObjectId) (v : Value) : Act Unit := Act.modify target (withValue v)

def addModifier (e : Document.Element) (c : HelperCall) : Act Unit := do
  let morph ← Act.new (.morph (.element c) [])
  e.modifiers.append morph fun modifiers =>
    Document.modifyShape e.id (Document.withModifiers modifiers)

end Binding

end TemplateRecovery
