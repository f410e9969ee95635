import TemplateRecovery.Document.Basic
import TemplateRecovery.Document.Method

/-!
# Calls of a document

Every method of a document takes a fixed range of argument counts.
-/

namespace TemplateRecovery

namespace Document

/-- Calls a method of a document; with the wrong number of arguments nothing is done. -/
def call (document : ObjectId) : Method → List Value → Act Value
  | .createDocumentFragment, [] => createFragment
  | .createElement, [tag] => createElement document tag .null
  | .createElement, [tag, ns] => createElement document tag ns
  | .createTextNode, [contents] => createText contents
  | .createComment, [contents] => createComment contents
  | .appendChild, [parent, child] => appendChild parent child
  | .setAttribute, [element, name, value] => do
    setAttribute element name value
    return .null
  | .setAttributeNS, [element, _, name, value] => do
    setAttribute element name value
    return .null
  | .childAt, [node, path] => childAt node path
  | .childAtIndex, [node, index] => childAtIndex node index
  | .createMorphAt, [parent, first, last] => createMorphAt parent first last
  | .createMorphAt, [parent, first, last, _] => createMorphAt parent first last
  | .createUnsafeMorphAt, [parent, first, last] => createMorphAt parent first last
  | .createUnsafeMorphAt, [parent, first, last, _] => createMorphAt parent first last
  | .createAttrMorph, [element, name] => createAttrMorph element name
  | .createAttrMorph, [element, name, _] => createAttrMorph element name
  | .createUnsafeAttrMorph, [element, name] => createAttrMorph element name
  | .createUnsafeAttrMorph, [element, name, _] => createAttrMorph element name
  | .createElementMorph, [element] => createElementMorph element
  | .createElementMorph, [element, _] => createElementMorph element
  | .detectNamespace, [] => return .null
  | .detectNamespace, [_] => return .null
  | .setNamespace, [ns] => do
    setNamespace document ns
    return .null
  | .insertBoundary, [_, _] => return .null
  | _, _ => Act.fail .wrongType

end Document

end TemplateRecovery
