import TemplateRecovery.Method.Text
import TemplateRecovery.Order

/-!
# The functions of lists and tuples
-/

namespace TemplateRecovery

namespace Method

/-- The position of the first item that is equal to a value. -/
def positionOf? (s : Store) (v : Value) (items : List Value) : Option Nat :=
  items.findIdx? fun w => s.equal w v

/-- An end of a range, which has to be a number. -/
def boundOf (length : Nat) (v : Value) : Act Nat :=
  match v.index? with
  | some i => return clamped length i
  | none => Act.fail .wrongType

/-- The position of the first item in a range that is equal to a value. -/
def positionIn? (v : Value) (items range : List Value) : Act (Option Nat) := do
  let s ← Act.store
  let ends ← range.mapM (boundOf items.length)
  match ends with
  | [] => return positionOf? s v items
  | [first] => return (positionOf? s v (items.drop first)).map (· + first)
  | [first, last] => return (positionOf? s v ((items.take last).drop first)).map (· + first)
  | _ => Act.fail .wrongType

def countOf (s : Store) (v : Value) (items : List Value) : Nat :=
  items.countP fun w => s.equal w v

def keepItems (id : ObjectId) (items : List Value) : Act Value := do
  Act.modify id fun
    | .list _ => .list items
    | o => o
  return .null

def popItem (id : ObjectId) (items : List Value) (index : Value) : Act Value := do
  let _ ← wordOf index
  if items.isEmpty then Act.fail (.raised "IndexError" "pop from empty list")
  else do
    let p ← Container.position items.length (.raised "IndexError" "pop index out of range") index
    let _ ← keepItems id (items.eraseIdx p)
    return items[p]?.getD .null

def manyTimes (items : List Value) (count : Value) : Act (List Value) := do
  let n ← timesOf .exhausted items.length count
  return List.flatten (List.replicate n items)

def callList (id : ObjectId) (items : List Value) (name : String) (args : List Value) :
    Act Value := do
  let s ← Act.store
  match name, args with
  | "append", [v] => keepItems id (items ++ [v])
  | "clear", [] => keepItems id []
  | "copy", [] => Act.new (.list items)
  | "count", [v] => return .int (countOf s v items)
  | "extend", [v] => do
    let more ← Container.items v
    keepItems id (items ++ more)
  | "index", v :: range => do
    match ← positionIn? v items range with
    | some p => return .int p
    | none => do
      let text ← Act.lift (Fault.written (s.view v))
      Act.fail (.raised "ValueError" (text ++ " is not in list"))
  | "insert", [index, v] => do
    let i ← wordOf index
    let p := clamped items.length i
    keepItems id (items.take p ++ v :: items.drop p)
  | "pop", [] => popItem id items (.int (-1))
  | "pop", [index] => popItem id items index
  | "remove", [v] =>
    match positionOf? s v items with
    | some p => keepItems id (items.eraseIdx p)
    | none => Act.fail (.raised "ValueError" "list.remove(x): x not in list")
  | "reverse", [] => keepItems id items.reverse
  | "sort", [] => do
    let sorted ← Act.lift (Order.sort s items)
    keepItems id sorted
  | "__add__", [v] =>
    match s.asObject? v with
    | some (_, .list more) => Act.new (.list (items ++ more))
    | _ => Act.fail .wrongType
  | "__iadd__", [v] => do
    let more ← Container.items v
    let _ ← keepItems id (items ++ more)
    return .object id
  | "__mul__", [count] => do
    let more ← manyTimes items count
    Act.new (.list more)
  | "__rmul__", [count] => do
    let more ← manyTimes items count
    Act.new (.list more)
  | "__delitem__", [index] => do
    let p ← Container.position items.length .noPosition index
    keepItems id (items.eraseIdx p)
  | "__getitem__", [index] => Container.item (.object id) index
  | "__setitem__", [index, v] => do
    Container.setItem (.object id) index v
    return .null
  | "__len__", [] => return .int items.length
  | "__contains__", [v] => return .bool ((positionOf? s v items).isSome)
  | _, _ => Act.fail .wrongType

def callTuple (id : ObjectId) (items : List Value) (name : String) (args : List Value) :
    Act Value := do
  let s ← Act.store
  match name, args with
  | "count", [v] => return .int (countOf s v items)
  | "index", v :: range => do
    match ← positionIn? v items range with
    | some p => return .int p
    | none => Act.fail (.raised "ValueError" "tuple.index(x): x not in tuple")
  | "__add__", [v] =>
    match s.asObject? v with
    | some (_, .tuple more) => Act.new (.tuple (items ++ more))
    | _ => Act.fail .wrongType
  | "__mul__", [count] => do
    let more ← manyTimes items count
    Act.new (.tuple more)
  | "__rmul__", [count] => do
    let more ← manyTimes items count
    Act.new (.tuple more)
  | "__getitem__", [index] => Container.item (.object id) index
  | "__len__", [] => return .int items.length
  | "__contains__", [v] => return .bool ((positionOf? s v items).isSome)
  | _, _ => Act.fail .wrongType

end Method

end TemplateRecovery
