/-!
# The names of the methods of a document

Compiled templates call a document by method name. Every method goes by two spellings.
-/

namespace TemplateRecovery

namespace Document

/-- The methods of a document. -/
inductive Method where
  | createDocumentFragment
  | createElement
  | createTextNode
  | createComment
  | appendChild
  | setAttribute
  | setAttributeNS
  | childAt
  | childAtIndex
  | createMorphAt
  | createUnsafeMorphAt
  | createAttrMorph
  | createUnsafeAttrMorph
  | createElementMorph
  | detectNamespace
  | setNamespace
  | insertBoundary
  deriving DecidableEq, Inhabited, Repr

namespace Method

/-- Every method under its two spellings. -/
def spellings : List (Method × String × String) := [
  (.createDocumentFragment, "createDocumentFragment", "create_document_fragment"),
  (.createElement, "createElement", "create_element"),
  (.createTextNode, "createTextNode", "create_text_node"),
  (.createComment, "createComment", "create_comment"),
  (.appendChild, "appendChild", "append_child"),
  (.setAttribute, "setAttribute", "set_attribute"),
  (.setAttributeNS, "setAttributeNS", "set_attribute_ns"),
  (.childAt, "childAt", "child_at"),
  (.childAtIndex, "childAtIndex", "child_at_index"),
  (.createMorphAt, "createMorphAt", "create_morph_at"),
  (.createUnsafeMorphAt, "createUnsafeMorphAt", "create_unsafe_morph_at"),
  (.createAttrMorph, "createAttrMorph", "create_attr_morph"),
  (.createUnsafeAttrMorph, "createUnsafeAttrMorph", "create_unsafe_attr_morph"),
  (.createElementMorph, "createElementMorph", "create_element_morph"),
  (.detectNamespace, "detectNamespace", "detect_namespace"),
  (.setNamespace, "setNamespace", "set_namespace"),
  (.insertBoundary, "insertBoundary", "insert_boundary")]

def ofName? (name : String) : Option Method :=
  (spellings.find? fun (_, camel, snake) => name == camel || name == snake).map (·.1)

def names : List String := spellings.flatMap fun (_, camel, snake) => [camel, snake]

end Method

end Document

end TemplateRecovery
