import TemplateRecovery.Event
import TemplateRecovery.Object.Basic

/-!
# The store

A `Store` holds every object of a run, the template that was registered and how it came there, what
was printed, and the log. Objects are never removed, so an identity stays valid.

* `Store.object?` is the object with an identity, `Store.asObject?` the object that a value is.
* `Store.typeName` is the name of the type of a value.
* `Store.truthy` tells whether a value counts as present.
-/

namespace TemplateRecovery

/-- What a run does to the registered template. -/
inductive Filling where
  /-- The registration function is called, be it for the second time. -/
  | call (template : Value)
  /-- A template is assigned past the registration function. -/
  | assignment (template : Value)
  deriving DecidableEq

/-- The state of a run. -/
structure Store where
  objects : Array Object := #[]
  /-- The tag for the next number that is none; the tag zero is shared. -/
  tag : Nat := 1
  registered : Option Value := none
  /-- What was done to the registered template, the latest first. -/
  fillings : List Filling := []
  printed : String := ""
  log : Array Event := #[]

instance : Inhabited Store := ⟨{}⟩

namespace Store

def object? (s : Store) (id : ObjectId) : Option Object := s.objects[id.index]?

def asObject? (s : Store) : Value → Option (ObjectId × Object)
  | .object id => (s.object? id).map (id, ·)
  | _ => none

def asNode? (s : Store) (v : Value) : Option (ObjectId × Node) :=
  match s.asObject? v with
  | some (id, .node n _) => some (id, n)
  | _ => none

def asPlaceholder? (s : Store) (v : Value) : Option ObjectId :=
  match s.asNode? v with
  | some (id, ⟨.placeholder _ _, _⟩) => some id
  | _ => none

def asAttribute? (s : Store) (v : Value) : Option ObjectId :=
  match s.asObject? v with
  | some (id, .morph (.attribute _ _ _) _) => some id
  | _ => none

def isExpression (s : Store) (v : Value) : Bool :=
  match s.asObject? v with
  | some (_, .expression _) => true
  | _ => false

/-- The items of a list or tuple, the two forms of an array. -/
def array? (s : Store) (v : Value) : Option (List Value) :=
  match s.asObject? v with
  | some (_, .list items) => some items
  | some (_, .tuple items) => some items
  | _ => none

def entries? (s : Store) (v : Value) : Option Entries :=
  match s.asObject? v with
  | some (_, .map entries) => some entries
  | _ => none

def typeName (s : Store) : Value → String
  | .null => "NoneType"
  | .bool _ => "bool"
  | .int _ => "int"
  | .float _ => "float"
  | .nan _ => "float"
  | .str _ => "str"
  | .moment m => m.typeName
  | .label l => l.typeName
  | .typeObject _ => "type"
  | .builtin _ => "builtin_function_or_method"
  | .method (.object id) _ =>
    match s.object? id with
    | some (.list _) => "builtin_function_or_method"
    | some (.tuple _) => "builtin_function_or_method"
    | some (.map _) => "builtin_function_or_method"
    | some (.record _) => "builtin_function_or_method"
    | _ => "method"
  | .method (.typeObject _) _ => "method_descriptor"
  | .method _ _ => "builtin_function_or_method"
  | .registrar => "method"
  | .capture => "TemplateCapture"
  | .foreign typeName _ => typeName
  | .object id => ((s.object? id).map Object.typeName).getD "object"

def isCallable (s : Store) : Value → Bool
  | .typeObject _ => true
  | .builtin _ => true
  | .method _ _ => true
  | .registrar => true
  | .object id =>
    match s.object? id with
    | some (.function _ _) => true
    | _ => false
  | _ => false

/-- Whether a value counts as present: null, false, zeros and everything empty do not. -/
def truthy (s : Store) : Value → Bool
  | .null => false
  | .bool b => b
  | .int n => n != 0
  | .float x => !x.isZero
  | .str t => t != ""
  | .object id =>
    match s.object? id with
    | some (.list items) => !items.isEmpty
    | some (.tuple items) => !items.isEmpty
    | some (.map entries) => !entries.isEmpty
    | _ => true
  | _ => true

end Store

end TemplateRecovery
