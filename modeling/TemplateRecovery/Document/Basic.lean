import TemplateRecovery.Container

/-!
# The recording document

A compiled template builds its tree by calling a document. Every call changes the store at once:
nodes are appended, attributes set, and ranges of children replaced by placeholders for bindings.

* `Document.appendChild` appends a node to the children of another.
* `Document.childAt` follows a path of child indices.
* `Document.createMorphAt` replaces a range of children by one placeholder.
* `Document.createAttrMorph` and `Document.createElementMorph` open a binding in a tag.

Here and wherever a tree is printed, the type and the text of a part are those of its own type. A
function that a script assigns to a single node or morph under the name of one of these is called by
scripts only.
-/

namespace TemplateRecovery

namespace Document

def expectNode (operation : String) (v : Value) : Act (ObjectId × Node) := do
  let s ← Act.store
  match s.asNode? v with
  | some found => return found
  | none => Act.failShape (.notNode operation) v

/-- An element, by what a tag can hold. -/
structure Element where
  id : ObjectId
  attributes : Held Entries
  bound : Held (List Value)
  modifiers : Held (List Value)

def element? (s : Store) (v : Value) : Option Element :=
  match s.asNode? v with
  | some (id, ⟨.element _ _ attributes bound modifiers, _⟩) =>
    some ⟨id, attributes, bound, modifiers⟩
  | _ => none

def expectElement (operation : String) (v : Value) : Act Element := do
  let s ← Act.store
  match element? s v with
  | some e => return e
  | none => Act.failShape (.notElement operation) v

def modifyNode (id : ObjectId) (f : Node → Node) : Act Unit :=
  Act.modify id fun
    | .node n added => .node (f n) added
    | o => o

def newNode (shape : Shape) : Act Value := Act.new (.node ⟨shape, .own []⟩ [])

def createFragment : Act Value := newNode .fragment

def namespaceOf (s : Store) (document : ObjectId) : Value :=
  match s.object? document with
  | some (.document ns) => ns
  | _ => .null

/-- A new element, in the given namespace or else in that of the document. -/
def createElement (document : ObjectId) (tag ns : Value) : Act Value := do
  let s ← Act.store
  let ns := if s.truthy ns then ns else namespaceOf s document
  newNode (.element tag ns (.own []) (.own []) (.own []))

def createText (contents : Value) : Act Value := newNode (.text contents)

def createComment (contents : Value) : Act Value := newNode (.comment contents)

/-- The shape of a node that now hangs below a parent: a placeholder remembers it. -/
def adopt (parent : Value) : Shape → Shape
  | .placeholder morph _ => .placeholder morph parent
  | shape => shape

def keepChildren (id : ObjectId) (children : Held (List Value)) : Act Unit :=
  modifyNode id fun n => { n with children }

/-- Appends a node to the children of another and returns it. -/
def appendChild (parent child : Value) : Act Value := do
  let (parentId, node) ← expectNode "appendChild parent" parent
  let (childId, _) ← expectNode "appendChild child" child
  node.children.append child (keepChildren parentId)
  modifyNode childId fun n => { n with shape := adopt parent n.shape }
  return child

def withAttributes (attributes : Held Entries) : Shape → Shape
  | .element tag ns _ bound modifiers => .element tag ns attributes bound modifiers
  | shape => shape

/-- The shape of an element with other bound attributes. -/
def withBound (bound : Held (List Value)) : Shape → Shape
  | .element tag ns attributes _ modifiers => .element tag ns attributes bound modifiers
  | shape => shape

def withModifiers (modifiers : Held (List Value)) : Shape → Shape
  | .element tag ns attributes bound _ => .element tag ns attributes bound modifiers
  | shape => shape

def modifyShape (id : ObjectId) (f : Shape → Shape) : Act Unit :=
  modifyNode id fun n => { n with shape := f n.shape }

def setAttribute (element name value : Value) : Act Unit := do
  let e ← expectElement "setAttribute" element
  let text ← Act.text value
  e.attributes.bind name (.str text) fun attributes =>
    modifyShape e.id (withAttributes attributes)

/-- The position of a child at an index among so many. -/
def childPosition? (index : Value) (count : Nat) : Option Nat := do
  let i ← index.index?
  if 0 ≤ i ∧ i < count then some i.toNat else none

def childAtIndex (node index : Value) : Act Value := do
  let (_, n) ← expectNode "childAt" node
  let count ← n.children.length
  match childPosition? index count with
  | some p => n.children.get p
  | none => Act.failShape (fun shown => .childIndex shown n.shape.kind count) index

/-- The node at the end of a path of child indices. -/
def childAt (node path : Value) : Act Value := do
  let steps ← Container.items path
  steps.foldlM childAtIndex node

/-- A range of positions among so many children. -/
def range? (first last : Value) (count : Nat) : Option (Nat × Nat) := do
  let i ← first.index?
  let j ← last.index?
  if 0 ≤ i ∧ i ≤ j ∧ j < count then some (i.toNat, j.toNat) else none

/-- Replaces a range of children by a placeholder and returns it. -/
def createMorphAt (parent first last : Value) : Act Value := do
  let (parentId, n) ← expectNode "createMorphAt" parent
  let count ← n.children.length
  match range? first last count with
  | some (i, j) => do
    let slot ← newNode (.placeholder .null parent)
    n.children.splice i j slot (keepChildren parentId)
    Act.note (.slot i j n.shape.kind)
    return slot
  | none => do
    let first ← Act.view first
    Act.failShape (fun last => .morphRange first last count) last

/-- Opens a bound attribute of an element; it has no value yet. -/
def createAttrMorph (element name : Value) : Act Value := do
  let e ← expectElement "createAttrMorph" element
  let morph ← Act.new (.morph (.attribute name .null element) [])
  e.bound.append morph fun bound => modifyShape e.id (withBound bound)
  return morph

/-- The handle with which a statement adds a modifier to an element. -/
def createElementMorph (element : Value) : Act Value := do
  let _ ← expectElement "createElementMorph" element
  Act.new (.slot element [])

def setNamespace (document : ObjectId) (ns : Value) : Act Unit :=
  Act.modify document fun
    | .document _ => .document ns
    | o => o

end Document

end TemplateRecovery
