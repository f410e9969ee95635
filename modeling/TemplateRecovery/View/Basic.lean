import TemplateRecovery.Moment
import TemplateRecovery.Number.Binary64
import TemplateRecovery.Value.Kind

/-!
# Finished values

A `View` is a value with everything below it written out, so that it can be printed and compared
without a store. An object inside itself is written as the number of levels back to it.

The parts of expressions, morphs and nodes are views of any kind, since a template may put anything
anywhere. In a well-formed tree the children of a node are a list of nodes, and so on.
-/

namespace TemplateRecovery

/-- How an object inside itself is shown in messages. -/
inductive Bracket where
  | list
  | tuple
  | map
  | record
  /-- An expression, a morph or a node. -/
  | part
  deriving DecidableEq, Inhabited, Repr

/-- A value with everything below it written out. -/
inductive View where
  | null
  | bool (b : Bool)
  | int (n : Int)
  | float (x : Binary64)
  | str (s : String)
  | moment (m : Moment)
  | label (l : Label)
  | list (items : List View)
  | tuple (items : List View)
  | map (entries : List (View × View))
  | record (fields : List (String × View))
  | literal (v : View)
  | path (p : View)
  | concat (parts : View)
  | subexpr (name params hash : View)
  | inline (name params hash : View)
  | modifier (name params hash : View)
  /-- A bound attribute; of the element it belongs to, only the tag is shown. -/
  | attribute (key value owner : View)
  | content (v : View)
  | block (name params hash primary alternate : View)
  | fragment (children : View)
  | element (tag ns attributes bound modifiers children : View)
  | text (contents children : View)
  | comment (contents children : View)
  /-- A placeholder; of its parent, only the kind is shown. -/
  | placeholder (morph parent children : View)
  | slot (tag : View)
  /-- Anything that can be called. -/
  | callable (typeName text : String)
  /-- A value of some other type. -/
  | other (typeName text : String)
  | back (bracket : Bracket) (levels : Nat)
  deriving Inhabited

namespace View

/-- The kind of an expression, a morph or a node. -/
def label? : View → Option Label
  | .literal _ => some (.expr .literal)
  | .path _ => some (.expr .path)
  | .concat _ => some (.expr .concat)
  | .subexpr _ _ _ => some (.expr .subexpr)
  | .inline _ _ _ => some (.morph .inline)
  | .modifier _ _ _ => some (.morph .element)
  | .attribute _ _ _ => some (.morph .attribute)
  | .content _ => some (.morph .content)
  | .block _ _ _ _ _ => some (.morph .block)
  | .fragment _ => some (.node .fragment)
  | .element _ _ _ _ _ _ => some (.node .element)
  | .text _ _ => some (.node .text)
  | .comment _ _ => some (.node .comment)
  | .placeholder _ _ _ => some (.node .placeholder)
  | _ => none

/-- The name of the type of an expression, a morph or a node of this kind. -/
def partName : Label → String
  | .node kind => kind.typeName
  | .morph kind => kind.typeName
  | .expr kind => kind.typeName

/-- The name of the type of a view, as messages give it. -/
def typeName : View → String
  | .null => "NoneType"
  | .bool _ => "bool"
  | .int _ => "int"
  | .float _ => "float"
  | .str _ => "str"
  | .moment m => m.typeName
  | .label l => l.typeName
  | .list _ => "list"
  | .tuple _ => "tuple"
  | .map _ => "dict"
  | .record _ => "SimpleNamespace"
  | .slot _ => "ElementSlot"
  | .callable name _ => name
  | .other name _ => name
  | .back .list _ => "list"
  | .back .tuple _ => "tuple"
  | .back .map _ => "dict"
  | .back .record _ => "SimpleNamespace"
  | .back .part _ => "object"
  | v => (v.label?.map partName).getD "object"

/-- The name of a type as messages about attributes give it: some types are named with the place
they come from. -/
def qualified (typeName : String) : String :=
  if typeName = "SimpleNamespace" then "types.SimpleNamespace"
  else if typeName = "date" ∨ typeName = "datetime" ∨ typeName = "timezone" then "datetime." ++ typeName
  else typeName

/-- The name of the type of a view, as messages about attributes give it. -/
def ownerName (v : View) : String := qualified v.typeName

/-- Whether a view counts as present: null, false, zeros and everything empty do not. -/
def truthy : View → Bool
  | .null => false
  | .bool b => b
  | .int n => n != 0
  | .float x => !x.isZero
  | .str s => s != ""
  | .list items => !items.isEmpty
  | .tuple items => !items.isEmpty
  | .map entries => !entries.isEmpty
  | _ => true

def isLiteral : View → Bool
  | .literal _ => true
  | _ => false

end View

end TemplateRecovery
