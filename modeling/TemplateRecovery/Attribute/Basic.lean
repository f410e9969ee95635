import TemplateRecovery.Attribute.Field
import TemplateRecovery.Attribute.Names
import TemplateRecovery.Document.Method
import TemplateRecovery.Hook.Name

/-!
# Attributes

Reading an attribute of a value finds a field of its object, a function of its type, or something that
is computed from it. Only the fields of records, morphs, nodes and functions can be assigned, and the
template that the registration function fills in, which cannot be read back this way.

* `Attribute.find?` reads an attribute that may be missing, `Attribute.get` one that has to be there.
* `Attribute.set` assigns to an attribute.

The mapping of all fields of an object is a copy: what is assigned to it does not reach the object.
-/

namespace TemplateRecovery

namespace Attribute

/-- The functions of expressions, morphs, nodes, documents and hooks. -/
def partMethods : Object → List String
  | .expression (.literal _) =>
    ["get_type", "to_inline_string", "to_value_string", "to_raw_string"]
  | .expression _ => ["get_type", "to_inline_string", "to_value_string"]
  | .morph _ _ => ["get_type", "to_string"]
  | .node _ _ => ["get_type", "to_string"]
  | .document _ => Document.Method.names
  | .hooks => "__getitem__" :: Hook.all.map Hook.name
  | .environment _ _ => ["__getitem__"]
  | _ => []

/-- Whether an object can be no key, so that its type has no function for hashing. -/
def isUnhashable : Object → Bool
  | .list _ => true
  | .map _ => true
  | .record _ => true
  | .morph _ _ => true
  | .environment _ _ => true
  | _ => false

/-- Whether an object keeps its fields in a table of its own. -/
def hasTable : Object → Bool
  | .list _ => false
  | .tuple _ => false
  | .map _ => false
  | _ => true

def intPart? (n : Int) (name : String) : Option Value :=
  match name with
  | "real" => some (.int n)
  | "numerator" => some (.int n)
  | "imag" => some (.int 0)
  | "denominator" => some (.int 1)
  | _ => none

def dayPart? (d : Moment.Day) (name : String) : Option Value :=
  match name with
  | "year" => some (.int d.year)
  | "month" => some (.int d.month)
  | "day" => some (.int d.day)
  | _ => none

def clockPart? (c : Moment.Clock) (zone : Option Moment.Zone) (name : String) : Option Value :=
  match name with
  | "hour" => some (.int c.hour)
  | "minute" => some (.int c.minute)
  | "second" => some (.int c.second)
  | "microsecond" => some (.int c.fraction)
  | "tzinfo" => some ((zone.map fun z => .foreign "timezone" z.name).getD .null)
  | "fold" => some (.int 0)
  | _ => none

def part? (v : Value) (name : String) : Option Value :=
  match v with
  | .bool b => intPart? (if b then 1 else 0) name
  | .int n => intPart? n name
  | .float _ =>
    match name with
    | "real" => some v
    | "imag" => some (.float (.ofInt 0))
    | _ => none
  | .nan _ =>
    match name with
    | "real" => some v
    | "imag" => some (.float (.ofInt 0))
    | _ => none
  | .moment (.day d) => dayPart? d name
  | .moment (.time d c zone) => (dayPart? d name).or (clockPart? c zone name)
  | .label l =>
    match name with
    | "value" => some (.str l.name)
    | "name" => some (.str l.name.toUpper)
    | _ => none
  | .typeObject typeName =>
    match name with
    | "__name__" => some (.str typeName)
    | "__qualname__" => some (.str typeName)
    | "__module__" => some (.str "builtins")
    | _ => none
  | .builtin function =>
    match name with
    | "__name__" => some (.str function)
    | "__qualname__" => some (.str function)
    | "__module__" => some (.str "builtins")
    | _ => none
  | .method _ function =>
    match name with
    | "__name__" => some (.str function)
    | _ => none
  | .registrar =>
    match name with
    | "__name__" => some (.str "register")
    | "__self__" => some .capture
    | _ => none
  | _ => none

/-- Whether the type of a value has a function of this name. -/
def hasMethod (s : Store) (v : Value) (name : String) : Bool :=
  common.contains name || (methods (s.typeName v)).contains name ||
    match v, s.asObject? v with
    | .typeObject typeName, _ => (methods typeName).contains name
    | _, some (_, o) => (partMethods o).contains name
    | _, none => false

/-- Whether a type lists a name among what is computed from its values. -/
def descriptor? (v : Value) (name : String) : Option Value :=
  match v with
  | .typeObject typeName =>
    if (parts typeName).contains name then
      some (.foreign "getset_descriptor"
        ("<attribute '" ++ name ++ "' of '" ++ typeName ++ "' objects>"))
    else none
  | _ => none

/-- What every value of a type has, apart from fields. -/
def typeMember? (s : Store) (v : Value) (name : String) : Option Value :=
  let unhashable := match s.asObject? v with
    | some (_, o) => isUnhashable o
    | none => false
  if name = "__class__" then some (.typeObject (s.typeName v))
  else if name = "__hash__" && unhashable then some .null
  else ((part? v name).or (descriptor? v name)).or
    (if hasMethod s v name then some (.method v name) else none)

def find? (v : Value) (name : String) : Act (Option Value) := do
  let s ← Act.store
  match s.asObject? v with
  | none => return typeMember? s v name
  | some (id, o) => do
    let field ← Field.read? id o name
    match field with
    | some found => return some found
    | none =>
      if name = "__dict__" ∧ hasTable o then do
        let entries ← Field.all id o
        let table ← Act.new (.map entries)
        return some table
      else return typeMember? s v name

def get (v : Value) (name : String) : Act Value := do
  let found ← find? v name
  match found with
  | some w => return w
  | none => Act.noAttribute v name

/-- Whether a value has an attribute table and is no function, so that a path can run through it. -/
def isOpen (s : Store) (v : Value) : Bool :=
  match v, s.asObject? v with
  | .label _, _ => true
  | _, some (_, .function _ _) => false
  | _, some (_, o) => hasTable o
  | _, none => false

/-- Refuses to assign to an attribute of a value whose attributes are fixed. -/
def refuse (v : Value) (name : String) : Act Unit := do
  let s ← Act.store
  let owner := View.qualified (s.typeName v)
  if name = "__class__" then Act.fail .wrongType
  else if (parts (s.typeName v)).contains name then Act.fail (.notWritable owner name)
  else
    match v with
    | .typeObject _ => Act.fail .wrongType
    | .registrar => Act.fail (.noAttribute "method" name)
    | _ =>
      if (typeMember? s v name).isSome then Act.fail (.readOnly owner name)
      else Act.noAttribute v name

/-- Puts a template where the registration function would. -/
def fill (template : Value) : Act Unit := fun s =>
  .ok () { s with registered := some template, fillings := .assignment template :: s.fillings }

def set (v : Value) (name : String) (new : Value) : Act Unit := do
  let s ← Act.store
  match s.asObject? v with
  | some (_, .list _) => refuse v name
  | some (_, .tuple _) => refuse v name
  | some (_, .map _) => refuse v name
  | some (_, .expression _) => Act.fail (.fixedField name)
  | some (id, .morph m added) =>
    match m, name with
    | .attribute _ _ _, "parent" => Act.fail (.noSetter m.kind.typeName name)
    | _, _ => Act.modify id fun _ => Field.assigned name new (.morph m added)
  | some (id, _) => Act.modify id (Field.assigned name new)
  | none => if v = .capture ∧ name = "_template" then fill new else refuse v name

end Attribute

end TemplateRecovery
