import TemplateRecovery.Hook.Name
import TemplateRecovery.Store.Act

/-!
# Containers

What can be done with any value that holds others: counting, walking through and reading its items,
and changing them. A value that holds none is refused.

* `Container.length`, `Container.items` and `Container.item` read a container.
* `Container.setItem`, `Container.append` and `Container.splice` change one.
* `Container.pairs` reads a mapping, or a sequence of pairs, as entries.

The containers that belong to an object are reached through `Held` in the same way.
-/

namespace TemplateRecovery

namespace Container

def length (v : Value) : Act Nat := do
  let s ← Act.store
  match v, s.asObject? v with
  | .str t, _ => return t.length
  | _, some (_, .list items) => return items.length
  | _, some (_, .tuple items) => return items.length
  | _, some (_, .map entries) => return entries.length
  | _, _ => Act.fail .wrongType

/-- The items of a value, one after the other: those of an array, the characters of a string, the keys
of a mapping. Hooks and environments have items by name only, so the first one is missing. -/
def items (v : Value) : Act (List Value) := do
  let s ← Act.store
  match v, s.asObject? v with
  | .str t, _ => return Value.characters t
  | _, some (_, .list items) => return items
  | _, some (_, .tuple items) => return items
  | _, some (_, .map entries) => return entries.map (·.1)
  | _, some (_, .hooks) => Act.noKey (.int 0)
  | _, some (_, .environment _ _) => Act.noKey (.int 0)
  | _, _ => Act.fail .wrongType

/-- Positions are numbers of 64 bits. -/
def indexLimit : Int := 0x8000000000000000

/-- The position that an index names among so many; negative ones count from the end. -/
def position? (length : Nat) (i : Int) : Option Nat :=
  let j := if i < 0 then i + length else i
  if 0 ≤ j ∧ j < length then some j.toNat else none

/-- The position that a key names, or why it names none. -/
def position (length : Nat) (missing : Fault) (key : Value) : Act Nat :=
  match key.index? with
  | none => Act.fail .wrongType
  | some i =>
    if i < -indexLimit ∨ indexLimit ≤ i then Act.fail .wideIndex
    else
      match position? length i with
      | some p => return p
      | none => Act.fail missing

/-- The fault of a position that a sequence does not have. -/
def outOfRange (what : String) : Fault := .raised "IndexError" (what ++ " index out of range")

def item (v key : Value) : Act Value := do
  let s ← Act.store
  match v, s.asObject? v with
  | .str t, _ => do
    let p ← position t.length (outOfRange "string") key
    return .str (String.ofList ((t.toList.drop p).take 1))
  | _, some (_, .list items) => do
    let p ← position items.length (outOfRange "list") key
    return items[p]?.getD .null
  | _, some (_, .tuple items) => do
    let p ← position items.length (outOfRange "tuple") key
    return items[p]?.getD .null
  | _, some (_, .map entries) =>
    if s.isKey key then
      match s.find? key entries with
      | some found => return found
      | none => Act.noKey key
    else Act.fail .wrongType
  | _, some (_, .hooks) => hookItem v key
  | _, some (_, .environment document hooks) =>
    if key = .str "dom" then return document
    else if key = .str "hooks" then return hooks
    else Act.noKey key
  | _, _ => Act.fail .wrongType
where
  /-- A hook, looked up by its name. -/
  hookItem (v key : Value) : Act Value :=
    match key with
    | .str name =>
      if (Hook.ofName? name).isSome then return .method v name else Act.noKey key
    | key => Act.noKey key

def withEntry (s : Store) (key v : Value) : Object → Object
  | .map entries => .map (s.insert key v entries)
  | o => o

def withItem (p : Nat) (v : Value) : Object → Object
  | .list items => .list (items.set p v)
  | o => o

def withItems (more : List Value) : Object → Object
  | .list items => .list (items ++ more)
  | o => o

def setItem (container key v : Value) : Act Unit := do
  let s ← Act.store
  match s.asObject? container with
  | some (id, .map _) =>
    if s.isKey key then Act.modify id (withEntry s key v) else Act.fail .wrongType
  | some (id, .list items) => do
    let p ← position items.length .noPosition key
    Act.modify id (withItem p v)
  | _ => Act.fail .wrongType

/-- The items of a list with a range of them replaced by one. -/
def spliced (items : List Value) (first last : Nat) (v : Value) : List Value :=
  items.take first ++ v :: items.drop (last + 1)

/-- A list with a range of its items replaced by one. -/
def withSplice (first last : Nat) (v : Value) : Object → Object
  | .list items => .list (spliced items first last v)
  | o => o

def splice (container : Value) (first last : Nat) (v : Value) : Act Unit := do
  let s ← Act.store
  match s.asObject? container with
  | some (id, .list _) => Act.modify id (withSplice first last v)
  | _ => Act.fail .wrongType

/-- Appends an item to a list; nothing else can be appended to. -/
def append (container v : Value) : Act Unit := do
  let s ← Act.store
  match s.asObject? container with
  | some (id, .list _) => Act.modify id (withItems [v])
  | _ => Act.noAttribute container "append"

/-- Refuses a value to which nothing can be appended. -/
def expectList (v : Value) : Act Unit := do
  let s ← Act.store
  match s.asObject? v with
  | some (_, .list _) => return ()
  | _ => Act.noAttribute v "append"

/-- The pair that an item of a sequence is. -/
def pairOf (index : Nat) (v : Value) : Act (Value × Value) := do
  let parts ← items v
  match parts with
  | [k, w] => return (k, w)
  | parts => Act.fail (.notPair index parts.length)

/-- The entries that a sequence of pairs gives, the first of them counted as `index`. -/
def pairsFrom : Nat → List Value → Entries → Act Entries
  | _, [], entries => return entries
  | index, v :: rest, entries => do
    let (k, w) ← pairOf index v
    let s ← Act.store
    if s.isKey k then pairsFrom (index + 1) rest (s.insert k w entries) else Act.fail .wrongType

/-- The entries of a mapping, or those that a sequence of pairs gives. -/
def pairs (v : Value) : Act Entries := do
  let s ← Act.store
  match s.entries? v with
  | some entries => return entries
  | none => do
    let parts ← items v
    pairsFrom 0 parts []

end Container

namespace Held

def length : Held (List Value) → Act Nat
  | .own items => return items.length
  | .shared v => Container.length v

def expectList : Held (List Value) → Act Unit
  | .own _ => return ()
  | .shared v => Container.expectList v

/-- Appends an item: own contents are kept by the owner, others are changed where they are. -/
def append (h : Held (List Value)) (v : Value) (keep : Held (List Value) → Act Unit) : Act Unit :=
  match h with
  | .own items => keep (.own (items ++ [v]))
  | .shared w => Container.append w v

/-- Replaces a range of items by one. -/
def splice (h : Held (List Value)) (first last : Nat) (v : Value)
    (keep : Held (List Value) → Act Unit) : Act Unit :=
  match h with
  | .own items => keep (.own (Container.spliced items first last v))
  | .shared w => Container.splice w first last v

def bind (h : Held Entries) (key v : Value) (keep : Held Entries → Act Unit) : Act Unit :=
  match h with
  | .own entries => do
    let s ← Act.store
    if s.isKey key then keep (.own (s.insert key v entries)) else Act.fail .wrongType
  | .shared w => Container.setItem w key v

/-- The item at a position that is there. -/
def get (h : Held (List Value)) (p : Nat) : Act Value :=
  match h with
  | .own items => return items[p]?.getD .null
  | .shared v => Container.item v (.int p)

end Held

end TemplateRecovery
