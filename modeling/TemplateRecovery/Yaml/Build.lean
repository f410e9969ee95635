import TemplateRecovery.Store.Key
import TemplateRecovery.Yaml.Graph.Reader
import TemplateRecovery.Yaml.Scalar.Value

/-!
# From a graph to values

Each vertex becomes one value, however often it is reached. A list or a mapping is made empty and
filled later, in rounds: the collections made in one round are filled in the next one. What is part of
a key is filled at once, since a key has to be known when it is used.

* `Building.flatten` merges the mappings that a mapping refers to into it.
* `Building.make` makes the value of a vertex, `Building.fill` fills a collection.
* `Yaml.read` reads a text.

A vertex is not entered again while it is being made, which bounds how deep the functions call each
other.
-/

namespace TemplateRecovery

namespace Yaml

/-- The state while values are made. -/
structure Building where
  graph : Graph
  store : Store
  /-- The values that are made. -/
  made : List (VertexId × Value) := []
  /-- The vertices that are being made. -/
  active : List VertexId := []
  /-- The collections that are to be filled, the last one first. -/
  pending : List (VertexId × ObjectId) := []

namespace Building

/-- A computation that makes values. -/
abbrev Build := StateT Building Reading

def wrong {α : Type} : Build α := fun _ => malformed

def lift {α : Type} (x : Reading α) : Build α := fun b => x.map (·, b)

def new (o : Object) : Build ObjectId := fun b =>
  .ok (⟨b.store.objects.size⟩, { b with store := { b.store with objects := b.store.objects.push o } })

def replace (id : ObjectId) (o : Object) : Build Unit :=
  modify fun b =>
    { b with store := { b.store with objects := b.store.objects.modify id.index fun _ => o } }

/-! ### Merging -/

/-- The entries of the mappings that a merge key refers to, after these have been flattened. -/
def merged (flatten : VertexId → Build Unit) (id : VertexId) :
    Build (List (VertexId × VertexId)) := do
  match (← get).graph.vertex? id with
  | some ⟨_, .mapping _ _⟩ =>
    flatten id
    return ((← get).graph.entries? id).getD []
  | some ⟨_, .sequence items⟩ =>
    let groups ← items.mapM fun item => do
      match (← get).graph.vertex? item with
      | some ⟨_, .mapping _ _⟩ =>
        flatten item
        return ((← get).graph.entries? item).getD []
      | _ => wrong
    return groups.reverse.flatten
  | _ => wrong

/-- Takes the merge keys out of the entries of a mapping, from a position on: the entries that they
refer to. A key for the main value becomes a text. -/
def takeMerged (flatten : VertexId → Build Unit) (id : VertexId) :
    Nat → Nat → List (VertexId × VertexId) → Build (List (VertexId × VertexId))
  | 0, _, found => return found
  | fuel + 1, index, found => do
    let entries := ((← get).graph.entries? id).getD []
    match entries[index]? with
    | none => return found
    | some (key, value) =>
      match (← get).graph.tag key with
      | .merge =>
        if !found.isEmpty then wrong
        else
          modify fun b =>
            { b with graph := b.graph.fill id (.mapping (entries.eraseIdx index) []) }
          let more ← merged flatten value
          takeMerged flatten id fuel index (found ++ more)
      | .value =>
        modify fun b => { b with graph := b.graph.retag key .text }
        takeMerged flatten id fuel (index + 1) found
      | _ => takeMerged flatten id fuel (index + 1) found

/-- Merges what a mapping refers to into it. The number of merge keys bounds how deep this goes. -/
def flatten : Nat → VertexId → Build Unit
  | 0, _ => wrong
  | fuel + 1, id => do
    let count := (← get).graph.entryCount
    let found ← takeMerged (flatten fuel) id (count + 1) 0 []
    if found.isEmpty then return ()
    else
      let entries := ((← get).graph.entries? id).getD []
      modify fun b => { b with graph := b.graph.fill id (.mapping (found ++ entries) found) }

/-! ### Making values -/

/-- The text of a scalar, or of the main value of a mapping. -/
def scalarText : Nat → VertexId → Build String
  | 0, _ => wrong
  | fuel + 1, id => do
    let g := (← get).graph
    match g.vertex? id with
    | some ⟨_, .scalar text⟩ => return text
    | some ⟨_, .mapping entries _⟩ =>
      match entries.find? fun (key, _) => g.tag key == .value with
      | some (_, value) => scalarText fuel value
      | none => wrong
    | _ => wrong

def scalar (tag : Tag) (id : VertexId) : Build Value := do
  let text ← scalarText ((← get).graph.vertices.size + 1) id
  match tag with
  | .text => return .str text
  | .integer => return .int (← lift (Scalar.integer text))
  | .float => lift (Scalar.float text)
  | .bool => return .bool (← lift (Scalar.truth text))
  | .null => return .null
  | .bytes => return .foreign "bytes" text
  | _ => wrong

/-- A value as a key: lists become tuples, and mappings cannot be keys. -/
def asKey (v : Value) : Build Value := do
  match (← get).store.asObject? v with
  | some (_, .list items) => return .object (← new (.tuple items))
  | some (_, .map _) => wrong
  | _ =>
    match v with
    | .foreign "set" _ => wrong
    | v => return v

/-- The entries with one more; a key that is there keeps its place if keys may come twice. -/
def insert (unique : Bool) (key v : Value) (entries : Entries) : Build Entries := do
  let s := (← get).store
  if !s.isKey key then lift (Scalar.failure .wrongType)
  else if unique && (s.find? key entries).isSome then wrong
  else return s.insert key v entries

mutual

/-- The value of a vertex. Inside a key, collections are filled at once. -/
def make (deep : Bool) : Nat → VertexId → Build Value
  | 0, _ => wrong
  | fuel + 1, id => do
    let b ← get
    match b.made.lookup id with
    | some v => return v
    | none =>
      if b.active.contains id then return .null
      else
        modify fun b => { b with active := id :: b.active }
        let v ← makeFresh deep fuel id
        modify fun b => { b with made := (id, v) :: b.made, active := b.active.erase id }
        return v

/-- The value of a vertex that was not made before. -/
def makeFresh (deep : Bool) : Nat → VertexId → Build Value
  | 0, _ => wrong
  | fuel + 1, id => do
    match (← get).graph.tag id with
    | .sequence => collection deep fuel id (.list [])
    | .mapping => collection deep fuel id (.map [])
    | .orderedMapping => collection deep fuel id (.map [])
    | .pairs => collection deep fuel id (.list [])
    | .set =>
      discard (collection deep fuel id (.map []))
      return .foreign "set" ""
    | .timestamp =>
      match (← get).graph.vertex? id with
      | some ⟨_, .scalar text⟩ => return .moment (← lift (Scalar.moment text))
      | _ => wrong
    | tag => scalar tag id

/-- A new collection, filled now or later. -/
def collection (deep : Bool) : Nat → VertexId → Object → Build Value
  | 0, _, _ => wrong
  | fuel + 1, id, o => do
    let object ← new o
    if deep then fill true fuel id object
    else modify fun b => { b with pending := (id, object) :: b.pending }
    return .object object

def fill (deep : Bool) : Nat → VertexId → ObjectId → Build Unit
  | 0, _, _ => wrong
  | fuel + 1, id, object => do
    let g := (← get).graph
    match g.vertex? id with
    | some ⟨.sequence, .sequence items⟩ =>
      let values ← makeAll deep fuel items
      replace object (.list values)
    | some ⟨.pairs, .sequence items⟩ =>
      let entries ← makePairs deep fuel items
      let tuples ← entries.mapM fun (k, v) => do return .object (← new (.tuple [k, v]))
      replace object (.list tuples)
    | some ⟨.orderedMapping, .sequence items⟩ =>
      let pairs ← makePairs deep fuel items
      let entries ← pairs.foldlM (fun entries (k, v) => insert true k v entries) []
      replace object (.map entries)
    | some ⟨.mapping, .mapping _ _⟩ => fillMapping deep fuel id object
    | some ⟨.set, .mapping _ _⟩ => fillMapping deep fuel id object
    | _ => wrong

/-- Fills a mapping. What is merged into it comes first, and only without that have its keys to
differ. -/
def fillMapping (deep : Bool) : Nat → VertexId → ObjectId → Build Unit
  | 0, _, _ => wrong
  | fuel + 1, id, object => do
    flatten ((← get).graph.entryCount + 1) id
    match (← get).graph.vertex? id with
    | some ⟨_, .mapping entries merged⟩ =>
      let first ← makeEntries deep fuel false merged []
      let second ← makeEntries deep fuel merged.isEmpty entries []
      let all ← second.foldlM (fun entries (k, v) => insert false k v entries) first
      replace object (.map all)
    | _ => wrong

def makeAll (deep : Bool) : Nat → List VertexId → Build (List Value)
  | 0, _ => wrong
  | _ + 1, [] => return []
  | fuel + 1, id :: rest => do
    let v ← make deep fuel id
    return v :: (← makeAll deep fuel rest)

/-- The only entries of mappings in a sequence. -/
def makePairs (deep : Bool) : Nat → List VertexId → Build (List (Value × Value))
  | 0, _ => wrong
  | _ + 1, [] => return []
  | fuel + 1, id :: rest => do
    match (← get).graph.entries? id with
    | some [(key, value)] =>
      let k ← make deep fuel key
      let v ← make deep fuel value
      return (k, v) :: (← makePairs deep fuel rest)
    | _ => wrong

/-- The entries of a mapping after those that are there. -/
def makeEntries (deep : Bool) :
    Nat → Bool → List (VertexId × VertexId) → Entries → Build Entries
  | 0, _, _, _ => wrong
  | _ + 1, _, [], entries => return entries
  | fuel + 1, unique, (key, value) :: rest, entries => do
    let k ← make true fuel key
    let k ← asKey k
    let v ← make deep fuel value
    let entries ← insert unique k v entries
    makeEntries deep fuel unique rest entries

end

/-- Fills the collections of a round one after another. -/
def fillAll (fuel : Nat) : List (VertexId × ObjectId) → Build Unit
  | [] => return ()
  | (id, object) :: rest => do
    fill false fuel id object
    fillAll fuel rest

/-- Fills collections in rounds until none is left. -/
def rounds (fuel : Nat) : Nat → Build Unit
  | 0 => wrong
  | n + 1 => do
    let pending := (← get).pending.reverse
    if pending.isEmpty then return ()
    else
      modify fun b => { b with pending := [] }
      fillAll fuel pending
      rounds fuel n

/-- The number of vertices and entries of a graph, which bounds all that is done with it. -/
def bound (g : Graph) : Nat :=
  g.vertices.foldl (fun n v =>
    match v.contents with
    | .scalar _ => n + 1
    | .sequence items => n + 1 + items.length
    | .mapping entries _ => n + 1 + entries.length) 1

end Building

def read (text : String) (store : Store) : Reading (Value × Store) := do
  match ← Graph.ofText text with
  | (none, _) => return (.null, store)
  | (some top, graph) =>
    let size := Building.bound graph
    let fuel := 8 * size * size + 8
    let build : Building.Build Value := do
      let v ← Building.make false fuel top
      Building.rounds fuel (size + 1)
      return v
    let (v, b) ← build { graph, store }
    return (v, b.store)

end Yaml

end TemplateRecovery
