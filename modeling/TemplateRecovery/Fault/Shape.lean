import TemplateRecovery.View.Repr

/-!
# Faults of shape

`ShapeFault` lists the ways in which an argument, a statement or a tree can have the wrong shape, and
`ShapeFault.message` gives each its wording.
-/

namespace TemplateRecovery

/-- The two kinds of tagged arrays. -/
inductive TagKind where
  | expression
  | statement
  deriving DecidableEq, Inhabited, Repr

def TagKind.name : TagKind → String
  | .expression => "expression"
  | .statement => "statement"

/-- Why an argument, a statement or a tree is refused. -/
inductive ShapeFault where
  | notNode (operation : String) (got : View)
  | notElement (operation : String) (got : View)
  | childIndex (index : View) (kind : NodeKind) (count : Nat)
  | morphRange (first last : View) (count : Nat)
  | unboundPlaceholder
  | missingValue (key : String)
  | missingPrimary (name : String)
  | hookParams (got : View)
  | hookHash (got : View)
  | hookName (hook : String) (got : View)
  | hookSlot (hook : String) (got : View)
  | hookPath (got : View)
  | hookAttribute (got : View)
  | hookElement (got : View)
  | missingTemplate (name : String)
  | renderResult (got : View)
  | emptyArray (kind : TagKind)
  | arity (tag : String) (least : Nat) (most : Option Nat) (args : List View)
  | notPath (got : View)
  | notParams (got : View)
  | notHash (got : View)
  | oddHash (items : List View)
  | notName (tag : String) (got : View)
  | notSlot (tag : String) (got : View)
  | templateIndex (tag : String) (index : View) (count : Nat)
  | notStatement (got : View)
  | notAttribute (got : View)
  | notElementSlot
  | fragmentResult (got : View)
  | slotsResult (got : View)

/-- The values that the message of a fault writes out. -/
def ShapeFault.shown : ShapeFault → List View
  | .childIndex index _ _ => [index]
  | .morphRange first last _ => [first, last]
  | .arity _ _ _ args => args
  | .notPath got => [got]
  | .oddHash items => items
  | .notName _ got => [got]
  | .templateIndex _ index _ => [index]
  | _ => []

/-- How many arguments a tagged array may have. -/
def arityText (least : Nat) : Option Nat → String
  | none => s!"at least {least}"
  | some most => if least = most then toString least else s!"{least}-{most}"

def ShapeFault.message : ShapeFault → String
  | .notNode operation got => operation ++ ": expected a node, got " ++ got.typeName
  | .notElement operation got => operation ++ ": expected an element, got " ++ got.typeName
  | .childIndex index kind count =>
    "Child index " ++ index.repr ++ " out of range for " ++ kind.name ++ " node with " ++
      toString count ++ " children"
  | .morphRange first last count =>
    "Invalid morph range [" ++ first.repr ++ ", " ++ last.repr ++ "] for a node with " ++
      toString count ++ " children"
  | .unboundPlaceholder => "Morph placeholder was never bound to a morph"
  | .missingValue key => "Attribute morph '" ++ key ++ "' never received a value"
  | .missingPrimary name => "Block '" ++ name ++ "' has no primary template"
  | .hookParams got => "Expected a params list, got " ++ got.typeName
  | .hookHash got => "Expected a hash mapping, got " ++ got.typeName
  | .hookName hook got => hook ++ "(): expected a helper name, got " ++ got.typeName
  | .hookSlot hook got => hook ++ "(): expected a morph slot, got " ++ got.typeName
  | .hookPath got => "get(): expected a path string, got " ++ got.typeName
  | .hookAttribute got => "attribute(): expected an attribute morph, got " ++ got.typeName
  | .hookElement got => "element(): expected an element, got " ++ got.typeName
  | .missingTemplate name => "block(): '" ++ name ++ "' has no template"
  | .renderResult got => "render() must return a fragment, got " ++ got.typeName
  | .emptyArray kind => "Empty " ++ kind.name ++ " array"
  | .arity tag least most args =>
    "'" ++ tag ++ "' expects " ++ arityText least most ++ " arguments, got " ++
      toString args.length ++ ": " ++ listText (args.map View.repr)
  | .notPath got => "'get' expects a path string, got " ++ got.repr
  | .notParams got => "Expected a params array, got " ++ got.typeName
  | .notHash got => "Expected a hash array, got " ++ got.typeName
  | .oddHash items => "Hash array has an odd number of elements: " ++ listText (items.map View.repr)
  | .notName tag got => "'" ++ tag ++ "' expects a name string, got " ++ got.repr
  | .notSlot tag got => "'" ++ tag ++ "' statement needs a morph slot, got " ++ got.typeName
  | .templateIndex tag index count =>
    "'" ++ tag ++ "' references template " ++ index.repr ++ ", but only " ++ toString count ++
      " templates are declared"
  | .notStatement got => "Statement must be an array, got " ++ got.typeName
  | .notAttribute got =>
    "'attribute' statement needs an attribute morph, got " ++ got.typeName
  | .notElementSlot => "'element' statement needs a slot attached to an element"
  | .fragmentResult got => "buildFragment() must return a fragment, got " ++ got.typeName
  | .slotsResult got => "buildRenderNodes() must return an array, got " ++ got.typeName

end TemplateRecovery
