import TemplateRecovery.Container

/-!
# The functions of mappings
-/

namespace TemplateRecovery

namespace Method

def keepEntries (id : ObjectId) (entries : Entries) : Act Value := do
  Act.modify id fun
    | .map _ => .map entries
    | o => o
  return .null

/-- The value of a key, or what stands for a missing one. -/
def lookUp (entries : Entries) (key missing : Value) : Act Value := do
  let s ← Act.store
  if s.isKey key then return (s.find? key entries).getD missing else Act.fail .wrongType

/-- Takes a key out of a mapping and returns its value. -/
def popKey (id : ObjectId) (entries : Entries) (key : Value) (missing : Option Value) :
    Act Value := do
  let s ← Act.store
  if s.isKey key then
    match s.find? key entries, missing with
    | some v, _ => do
      let _ ← keepEntries id (s.erase key entries)
      return v
    | none, some v => return v
    | none, none => Act.noKey key
  else Act.fail .wrongType

/-- Binds a key that is not there yet and returns its value. -/
def setDefault (id : ObjectId) (entries : Entries) (key v : Value) : Act Value := do
  let s ← Act.store
  if s.isKey key then
    match s.find? key entries with
    | some found => return found
    | none => do
      let _ ← keepEntries id (s.insert key v entries)
      return v
  else Act.fail .wrongType

def updated (s : Store) (entries more : Entries) : Entries :=
  more.foldl (fun entries (k, v) => s.insert k v entries) entries

/-- A new mapping that binds each item of a value to one value. -/
def fromKeys (keys v : Value) : Act Value := do
  let keys ← Container.items keys
  let s ← Act.store
  if keys.all s.isKey then
    Act.new (.map (keys.foldl (fun entries k => s.insert k v entries) []))
  else Act.fail .wrongType

def callMap (id : ObjectId) (entries : Entries) (name : String) (args : List Value) :
    Act Value := do
  let s ← Act.store
  match name, args with
  | "clear", [] => keepEntries id []
  | "copy", [] => Act.new (.map entries)
  | "get", [key] => lookUp entries key .null
  | "get", [key, missing] => lookUp entries key missing
  | "items", [] => return .foreign "dict_items" "dict_items(...)"
  | "keys", [] => return .foreign "dict_keys" "dict_keys(...)"
  | "values", [] => return .foreign "dict_values" "dict_values(...)"
  | "pop", [key] => popKey id entries key none
  | "pop", [key, missing] => popKey id entries key (some missing)
  | "popitem", [] =>
    match entries.getLast? with
    | some (k, v) => do
      let _ ← keepEntries id entries.dropLast
      Act.new (.tuple [k, v])
    | none => Act.fail (.noKey (.str "popitem(): dictionary is empty"))
  | "setdefault", [key] => setDefault id entries key .null
  | "setdefault", [key, v] => setDefault id entries key v
  | "update", [] => return .null
  | "update", [v] => do
    let more ← Container.pairs v
    keepEntries id (updated s entries more)
  | "fromkeys", [v] => fromKeys v .null
  | "fromkeys", [v, w] => fromKeys v w
  | "__delitem__", [key] => do
    let _ ← popKey id entries key none
    return .null
  | "__getitem__", [key] => Container.item (.object id) key
  | "__setitem__", [key, v] => do
    Container.setItem (.object id) key v
    return .null
  | "__len__", [] => return .int entries.length
  | "__contains__", [key] =>
    if s.isKey key then return .bool (s.find? key entries).isSome else Act.fail .wrongType
  | _, _ => Act.fail .wrongType

end Method

end TemplateRecovery
