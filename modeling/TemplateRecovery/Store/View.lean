import TemplateRecovery.Render.Basic
import TemplateRecovery.Store.Basic

/-!
# Finished views of a store

`Store.view` writes out everything below a value. An object that is met again inside itself becomes
the number of levels back to it; along any path every object is opened at most once, so the number of
objects bounds the depth of the view.

`Store.tree` writes out what a node prints. The tree is followed from node to node in the same way,
but a value that is shown inside it by its text is written out on its own, as if nothing were around
it.
-/

namespace TemplateRecovery

namespace Store

/-- The objects that are open around a place, each with the depth at which it stands. -/
abbrev Opened := List (ObjectId × Nat)

/-- How an object inside itself is shown. -/
def bracketOf : Object → Bracket
  | .list _ => .list
  | .tuple _ => .tuple
  | .map _ => .map
  | .record _ => .record
  | _ => .part

def tagOf (s : Store) (v : Value) : Value :=
  match s.asNode? v with
  | some (_, ⟨.element tag _ _ _ _, _⟩) => tag
  | _ => .null

/-- What is shown of the parent of a placeholder: its kind, or what is there instead of one. -/
def parentView (s : Store) : Value → View
  | .null => .null
  | v =>
    match s.asObject? v with
    | some (_, .node n _) => .label (.node n.shape.kind)
    | some (_, .morph m _) => .label (.morph m.kind)
    | some (_, .expression e) => .label (.expr e.kind)
    | _ => .other (s.typeName v) ""

/-- A value without parts, written out. -/
def viewScalar (s : Store) : Value → View
  | .null => .null
  | .bool b => .bool b
  | .int n => .int n
  | .float x => .float x
  | .nan _ => .float .nan
  | .str t => .str t
  | .moment m => .moment m
  | .label l => .label l
  | .typeObject name => .callable "type" ("<class '" ++ name ++ "'>")
  | .builtin name => .callable (s.typeName (.builtin name)) ("<built-in function " ++ name ++ ">")
  | .method owner name => .callable (s.typeName (.method owner name)) ("<method " ++ name ++ ">")
  | .registrar => .callable "method" "<method register>"
  | .capture => .other "TemplateCapture" "<TemplateCapture>"
  | .foreign typeName text => .other typeName text
  | .object _ => .back .part 0

/-- The parts of an object, each at its depth, written out. -/
def viewObject (s : Store) (view : Nat → Value → View) (depth : Nat) : Object → View
  | .list items => .list (items.map (view depth))
  | .tuple items => .tuple (items.map (view depth))
  | .map entries => .map (entries.map fun (k, v) => (view depth k, view depth v))
  | .record fields => .record (fields.map fun (k, v) => (k, view depth v))
  | .expression e =>
    match e with
    | .literal v => .literal (view depth v)
    | .path p => .path (view depth p)
    | .concat parts => .concat (items parts)
    | .subexpr c => .subexpr (view depth c.name) (items c.params) (entries c.hash)
  | .morph m _ =>
    match m with
    | .inline c => .inline (view depth c.name) (items c.params) (entries c.hash)
    | .element c => .modifier (view depth c.name) (items c.params) (entries c.hash)
    | .attribute key value owner =>
      .attribute (view depth key) (view depth value) (view depth (s.tagOf owner))
    | .content v => .content (view depth v)
    | .block c primary alternate =>
      .block (view depth c.name) (items c.params) (entries c.hash) (view depth primary)
        (view depth alternate)
  | .node n _ =>
    let children := items n.children
    match n.shape with
    | .fragment => .fragment children
    | .element tag ns attributes bound modifiers =>
      .element (view depth tag) (view depth ns) (entries attributes) (items bound)
        (items modifiers) children
    | .text contents => .text (view depth contents) children
    | .comment contents => .comment (view depth contents) children
    | .placeholder morph parent => .placeholder (view depth morph) (s.parentView parent) children
  | .slot owner _ => .slot (view depth (s.tagOf owner))
  | .function _ _ => .callable "function" "<function>"
  | .document _ => .other "VirtualDocument" "<VirtualDocument>"
  | .hooks => .other "HookTable" "<HookTable>"
  | .environment _ _ => .other "HookEnvironment" "<HookEnvironment>"
where
  /-- The items of a container, one level deeper than the container. -/
  items : Held (List Value) → View
    | .own contents => .list (contents.map (view (depth + 1)))
    | .shared v => view depth v
  /-- The entries of a container, which is no level of its own. -/
  entries : Held Entries → View
    | .own contents => .map (contents.map fun (k, v) => (view depth k, view depth v))
    | .shared v => view depth v

/-- A value written out inside the open objects. -/
def viewWithin (s : Store) : Nat → Opened → Nat → Value → View
  | 0, _, _, v => s.viewScalar v
  | fuel + 1, opened, depth, v =>
    match v with
    | .object id =>
      match opened.lookup id, s.object? id with
      | none, some o => s.viewObject (s.viewWithin fuel ((id, depth) :: opened)) (depth + 1) o
      | outer, o => .back ((o.map bracketOf).getD .part) (depth - outer.getD depth)
    | v => s.viewScalar v

/-- Along a path every object is opened at most once. -/
def viewFuel (s : Store) : Nat := s.objects.size + 1

/-- A value with everything below it written out. -/
def view (s : Store) (v : Value) : View := s.viewWithin s.viewFuel [] 0 v

/-- Whether a value prints by following its parts: a node or a morph. -/
def isPrinted (s : Store) (v : Value) : Bool :=
  match s.asObject? v with
  | some (_, .node _ _) => true
  | some (_, .morph _ _) => true
  | _ => false

/-- The parts of an expression, a morph or a node, written out for printing: parts of the tree by
`tree`, values that are shown by their text by `shown`. -/
def treeObject (s : Store) (tree shown : Value → View) : Object → View
  | .expression e =>
    match e with
    | .literal v => .literal (shown v)
    | .path p => .path (shown p)
    | .concat parts => .concat (items parts)
    | .subexpr c => .subexpr (shown c.name) (items c.params) (entries c.hash)
  | .morph m _ =>
    match m with
    | .inline c => .inline (shown c.name) (items c.params) (entries c.hash)
    | .element c => .modifier (shown c.name) (items c.params) (entries c.hash)
    | .attribute key value _ => .attribute (shown key) (tree value) .null
    | .content v => .content (shown v)
    | .block c primary alternate =>
      .block (shown c.name) (items c.params) (entries c.hash) (tree primary) (tree alternate)
  | .node n _ =>
    match n.shape with
    | .fragment => .fragment (items n.children)
    | .element tag _ attributes bound modifiers =>
      .element (shown tag) .null (shownEntries attributes) (items bound) (items modifiers)
        (items n.children)
    | .text contents => .text (shown contents) .null
    | .comment contents => .comment (shown contents) .null
    | .placeholder morph _ => .placeholder (tree morph) .null .null
  | _ => .null
where
  /-- A container of parts of the tree. -/
  container : Value → View
    | v =>
      match s.asObject? v with
      | some (_, .list items) => .list (items.map tree)
      | some (_, .tuple items) => .tuple (items.map tree)
      | some (_, .map entries) => .map (entries.map fun (k, v) => (tree k, tree v))
      | _ => shown v
  /-- The items of a container. -/
  items : Held (List Value) → View
    | .own contents => .list (contents.map tree)
    | .shared v => container v
  /-- Named arguments. -/
  entries : Held Entries → View
    | .own contents => .map (contents.map fun (k, v) => (shown k, tree v))
    | .shared v =>
      match s.entries? v with
      | some contents => .map (contents.map fun (k, v) => (shown k, tree v))
      | none => shown v
  /-- Static attributes. -/
  shownEntries : Held Entries → View
    | .own contents => .map (contents.map fun (k, v) => (shown k, shown v))
    | .shared v =>
      match s.entries? v with
      | some contents => .map (contents.map fun (k, v) => (shown k, shown v))
      | none => shown v

/-- What a part of a tree prints, written out inside the open objects. -/
def treeWithin (s : Store) : Nat → List ObjectId → Value → View
  | 0, _, _ => .back .part 0
  | fuel + 1, opened, v =>
    match s.asObject? v with
    | some (id, o) =>
      if opened.contains id then .back .part 0
      else
        let tree := s.treeWithin fuel (id :: opened)
        let shown := fun w => if s.isPrinted w then tree w else s.view w
        match o with
        | .expression _ => s.treeObject tree shown o
        | .morph _ _ => s.treeObject tree shown o
        | .node _ _ => s.treeObject tree shown o
        | _ => s.view v
    | none => s.view v

/-- What a node, a morph or an expression prints, written out. -/
def tree (s : Store) (v : Value) : View := s.treeWithin (s.viewFuel + 1) [] v

def text (s : Store) (v : Value) : Except Fault String :=
  if s.isPrinted v then (s.tree v).plain else (s.view v).plain

end Store

end TemplateRecovery
