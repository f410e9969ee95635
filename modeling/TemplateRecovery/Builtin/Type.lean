import TemplateRecovery.Builtin.Names
import TemplateRecovery.Container
import TemplateRecovery.Fault.Number

/-!
# Calling a type

A type that is called converts its argument or makes a value of its own. Values that programs can do
nothing with are only known by their type.
-/

namespace TemplateRecovery

namespace Builtin

/-- The whole number in front of the fraction of a double. -/
def truncate : Binary64 → Except Fault Int
  | .nan => .error (.raised "ValueError" "cannot convert float NaN to integer")
  | .infinity _ => .error .overflow
  | .finite negative m e =>
    let (n, d) := Binary64.ratio m e
    .ok (Binary64.signed negative (n / d))

def toInt : Value → Act Value
  | .str s => do
    let n ← Act.lift (Fault.readInt s)
    return .int n
  | .float x => do
    let n ← Act.lift (truncate x)
    return .int n
  | .nan _ => do
    let n ← Act.lift (truncate .nan)
    return .int n
  | v =>
    match v.index? with
    | some n => return .int n
    | none => Act.fail .wrongType

def toFloat : Value → Act Value
  | .str s => do
    let x ← Act.lift (Fault.readFloat s)
    Act.newFloat x
  | .float x => return .float x
  | .nan tag => return .nan tag
  | v =>
    match v.index? with
    | some n =>
      match Binary64.ofInt n with
      | .infinity _ => Act.fail .overflow
      | x => return .float x
    | none => Act.fail .wrongType

/-- A value that is only known by its type. -/
def made (typeName : String) : Act Value := return .foreign typeName ("<" ++ typeName ++ ">")

def requireItems (v : Value) : Act Unit := do
  let _ ← Container.items v
  return ()

/-- The name of the type of what walks through a value. -/
def walkerName (s : Store) (v : Value) : String :=
  match v, s.entries? v with
  | .str t, _ => if t.toList.all fun c => c.toNat < 128 then "str_ascii_iterator" else "str_iterator"
  | _, some _ => "dict_keyiterator"
  | v, none => s.typeName v ++ "_iterator"

/-- The name of the type of what walks backwards through a value. -/
def backwardsName (s : Store) (v : Value) : String :=
  match s.asObject? v with
  | some (_, .list _) => "list_reverseiterator"
  | some (_, .map _) => "dict_reversekeyiterator"
  | _ => "reversed"

/-- The least number that is no byte. -/
def byteLimit : Int := 256

/-- Checks that items are bytes. -/
def requireBytes (typeName : String) : List Value → Act Unit
  | [] => return ()
  | v :: rest =>
    match v.index? with
    | none => Act.fail .wrongType
    | some n =>
      if 0 ≤ n ∧ n < byteLimit then requireBytes typeName rest
      else
        let what := if typeName = "bytes" then "bytes" else "byte"
        Act.fail (.raised "ValueError" (what ++ " must be in range(0, 256)"))

/-- Bytes from a number of them, or from their values. -/
def bytesOf (typeName : String) (v : Value) : Act Value :=
  match v, v.index? with
  | .str _, _ => Act.fail .wrongType
  | _, some n =>
    if n < 0 then Act.fail (.raised "ValueError" "negative count")
    else if Container.indexLimit ≤ n then Act.fail .overflow
    else made typeName
  | v, none => do
    let items ← Container.items v
    requireBytes typeName items
    made typeName

/-- The range up to a number, or from one number to another. -/
def range : List Int → Act Value
  | [stop] => return .foreign "range" s!"range(0, {stop})"
  | [start, stop] => return .foreign "range" s!"range({start}, {stop})"
  | [start, stop, step] =>
    if step = 0 then Act.fail (.raised "ValueError" "range() arg 3 must not be zero")
    else if step = 1 then return .foreign "range" s!"range({start}, {stop})"
    else return .foreign "range" s!"range({start}, {stop}, {step})"
  | _ => Act.fail .wrongType

/-- The text of a failure with these arguments. -/
def failureText : List Value → Act String
  | [] => return ""
  | [v] => Act.text v
  | args => do
    let s ← Act.store
    Act.lift (Fault.written (.tuple (args.map s.view)))

/-- The failures that need more than a message. -/
def structured : List String := [
  "UnicodeDecodeError", "UnicodeEncodeError", "UnicodeTranslateError", "BaseExceptionGroup",
  "ExceptionGroup"]

/-- A set of the items of a value. -/
def setOf (typeName : String) (v : Value) : Act Value := do
  let items ← Container.items v
  let s ← Act.store
  if items.all s.isKey then made typeName else Act.fail .wrongType

def construct (typeName : String) (args : List Value) : Act Value := do
  let s ← Act.store
  match typeName, args with
  | "str", [] => return .str ""
  | "str", [v] => do
    let text ← Act.text v
    return .str text
  | "int", [] => return .int 0
  | "int", [v] => toInt v
  | "float", [] => return .float (.ofInt 0)
  | "float", [v] => toFloat v
  | "bool", [] => return .bool false
  | "bool", [v] => return .bool (s.truthy v)
  | "list", [] => Act.new (.list [])
  | "list", [v] => do
    let items ← Container.items v
    Act.new (.list items)
  | "tuple", [] => Act.new (.tuple [])
  | "tuple", [v] => do
    match s.asObject? v with
    | some (_, .tuple _) => return v
    | _ => do
      let items ← Container.items v
      Act.new (.tuple items)
  | "dict", [] => Act.new (.map [])
  | "dict", [v] => do
    let entries ← Container.pairs v
    Act.new (.map entries)
  | "set", [] => made "set"
  | "set", [v] => setOf "set" v
  | "frozenset", [] => made "frozenset"
  | "frozenset", [v] => setOf "frozenset" v
  | "type", [v] => return .typeObject (s.typeName v)
  | "object", [] => made "object"
  | "range", args =>
    match args.mapM Value.index? with
    | some numbers => range numbers
    | none => Act.fail .wrongType
  | "enumerate", [v] => do
    requireItems v
    made "enumerate"
  | "reversed", [v] => do
    requireItems v
    made (backwardsName s v)
  | "zip", args => do
    args.forM requireItems
    made "zip"
  | "slice", [_] => made "slice"
  | "property", [_] => made "property"
  | "classmethod", [_] => made "classmethod"
  | "staticmethod", [v] => return .method v "__call__"
  | "bytes", [] => made "bytes"
  | "bytes", [v] => bytesOf "bytes" v
  | "bytearray", [] => made "bytearray"
  | "bytearray", [v] => bytesOf "bytearray" v
  | "complex", [v] => do
    let _ ← toFloat v
    made "complex"
  | typeName, args =>
    if failureTypes.contains typeName && !structured.contains typeName then do
      let text ← failureText args
      return .foreign typeName text
    else Act.fail .wrongType

end Builtin

end TemplateRecovery
