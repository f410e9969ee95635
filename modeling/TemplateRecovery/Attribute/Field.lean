import TemplateRecovery.Store.Act

/-!
# Fields of objects

The fields of records, expressions, morphs, nodes and handles by their names. A field that is a
container belongs to its object until somebody reads it; from then on the container is an object of
its own that both hold.

* `Field.value?` is a field that holds a value, `Field.items?` and `Field.entries?` are those that
  hold a container.
* `Field.read?` reads a field, `Field.assigned` assigns to one.

Documents, hook tables and environments keep only the fields that they have, other objects whatever is
assigned.
-/

namespace TemplateRecovery

namespace Field

/-- The field of a call, whose name goes by the given name. -/
def callValue? (nameField name : String) (c : HelperCall) : Option Value :=
  if name = nameField then some c.name else none

/-- The field of an object that holds a value. -/
def value? (name : String) : Object → Option Value
  | .record fields => fields.lookup name
  | .expression e =>
    match e with
    | .literal v => if name = "value" then some v else none
    | .path p => if name = "path" then some p else none
    | .concat _ => none
    | .subexpr c => callValue? "name" name c
  | .morph m added =>
    (match m with
      | .inline c => callValue? "helper_name" name c
      | .element c => callValue? "helper_name" name c
      | .attribute key value owner =>
        if name = "key" then some key
        else if name = "value" then some value
        else if name = "element" ∨ name = "parent" then some owner
        else none
      | .content v => if name = "content" then some v else none
      | .block c primary alternate =>
        if name = "primary" then some primary
        else if name = "alternate" then some alternate
        else callValue? "block_name" name c).or (added.lookup name)
  | .node n added =>
    (match n.shape with
      | .element tag ns _ _ _ =>
        if name = "tag_name" then some tag else if name = "namespace" then some ns else none
      | .text contents => if name = "contents" then some contents else none
      | .comment contents => if name = "contents" then some contents else none
      | .placeholder morph parent =>
        if name = "morph" then some morph else if name = "parent" then some parent else none
      | .fragment => none).or (added.lookup name)
  | .slot owner added => if name = "parent" then some owner else added.lookup name
  | .function _ added => added.lookup name
  | .document ns =>
    if name = "namespace" then some ns
    else if name = "canClone" ∨ name = "can_clone" then some (.bool false)
    else none
  | .environment document hooks =>
    if name = "dom" then some document else if name = "hooks" then some hooks else none
  | _ => none

def call? : Object → Option HelperCall
  | .expression (.subexpr c) => some c
  | .morph (.inline c) _ => some c
  | .morph (.element c) _ => some c
  | .morph (.block c _ _) _ => some c
  | _ => none

/-- The field of an object that holds items. -/
def items? (name : String) (o : Object) : Option (Held (List Value)) :=
  match name, o with
  | "children", .node n _ => some n.children
  | "attribute_morphs", .node ⟨.element _ _ _ bound _, _⟩ _ => some bound
  | "element_morphs", .node ⟨.element _ _ _ _ modifiers, _⟩ _ => some modifiers
  | "parts", .expression (.concat parts) => some parts
  | "params", o => (call? o).map (·.params)
  | _, _ => none

/-- The field of an object that holds entries. -/
def entries? (name : String) (o : Object) : Option (Held Entries) :=
  match name, o with
  | "attributes", .node ⟨.element _ _ attributes _ _, _⟩ _ => some attributes
  | "hash", o => (call? o).map (·.hash)
  | _, _ => none

def mapCall (f : HelperCall → HelperCall) : Object → Object
  | .expression (.subexpr c) => .expression (.subexpr (f c))
  | .morph (.inline c) added => .morph (.inline (f c)) added
  | .morph (.element c) added => .morph (.element (f c)) added
  | .morph (.block c primary alternate) added => .morph (.block (f c) primary alternate) added
  | o => o

/-- An object whose container under this name is the given one. -/
def withContainer (name : String) (v : Value) (o : Object) : Object :=
  match name, o with
  | "children", .node n added => .node { n with children := .shared v } added
  | "attributes", .node ⟨.element tag ns _ bound modifiers, children⟩ added =>
    .node ⟨.element tag ns (.shared v) bound modifiers, children⟩ added
  | "attribute_morphs", .node ⟨.element tag ns attributes _ modifiers, children⟩ added =>
    .node ⟨.element tag ns attributes (.shared v) modifiers, children⟩ added
  | "element_morphs", .node ⟨.element tag ns attributes bound _, children⟩ added =>
    .node ⟨.element tag ns attributes bound (.shared v), children⟩ added
  | "parts", .expression (.concat _) => .expression (.concat (.shared v))
  | "params", o => mapCall (fun c => { c with params := .shared v }) o
  | "hash", o => mapCall (fun c => { c with hash := .shared v }) o
  | _, o => o

/-- An object whose field is assigned; a name that is none of its fields is added to it. -/
def withValue (name : String) (v : Value) (o : Object) : Object :=
  match o with
  | .record fields => .record (Assoc.set name v fields)
  | .morph m added =>
    match m, name with
    | .inline c, "helper_name" => .morph (.inline { c with name := v }) added
    | .element c, "helper_name" => .morph (.element { c with name := v }) added
    | .attribute _ value owner, "key" => .morph (.attribute v value owner) added
    | .attribute key _ owner, "value" => .morph (.attribute key v owner) added
    | .attribute key value _, "element" => .morph (.attribute key value v) added
    | .content _, "content" => .morph (.content v) added
    | .block c primary alternate, "block_name" =>
      .morph (.block { c with name := v } primary alternate) added
    | .block c _ alternate, "primary" => .morph (.block c v alternate) added
    | .block c primary _, "alternate" => .morph (.block c primary v) added
    | m, name => .morph m (Assoc.set name v added)
  | .node n added =>
    match n.shape, name with
    | .element _ ns attributes bound modifiers, "tag_name" =>
      .node { n with shape := .element v ns attributes bound modifiers } added
    | .element tag _ attributes bound modifiers, "namespace" =>
      .node { n with shape := .element tag v attributes bound modifiers } added
    | .text _, "contents" => .node { n with shape := .text v } added
    | .comment _, "contents" => .node { n with shape := .comment v } added
    | .placeholder _ parent, "morph" => .node { n with shape := .placeholder v parent } added
    | .placeholder morph _, "parent" => .node { n with shape := .placeholder morph v } added
    | _, name => .node n (Assoc.set name v added)
  | .slot owner added =>
    if name = "parent" then .slot v added else .slot owner (Assoc.set name v added)
  | .function f added => .function f (Assoc.set name v added)
  | .document ns => if name = "namespace" then .document v else .document ns
  | .environment document hooks =>
    if name = "dom" then .environment v hooks
    else if name = "hooks" then .environment document v
    else .environment document hooks
  | o => o

def assigned (name : String) (v : Value) (o : Object) : Object :=
  if (items? name o).isSome || (entries? name o).isSome then withContainer name v o
  else withValue name v o

/-- Reads a field of an object, which shares a container that was its own. -/
def read? (id : ObjectId) (o : Object) (name : String) : Act (Option Value) :=
  match value? name o, items? name o, entries? name o with
  | some v, _, _ => return some v
  | none, some (.shared v), _ => return some v
  | none, none, some (.shared v) => return some v
  | none, some (.own items), _ => do
    let v ← Act.new (.list items)
    Act.modify id (withContainer name v)
    return some v
  | none, none, some (.own entries) => do
    let v ← Act.new (.map entries)
    Act.modify id (withContainer name v)
    return some v
  | none, none, none => return none

/-- The names of the fields that an object was made with. -/
def names : Object → List String
  | .expression e =>
    match e with
    | .literal _ => ["value"]
    | .path _ => ["path"]
    | .concat _ => ["parts"]
    | .subexpr _ => ["name", "params", "hash"]
  | .morph m _ =>
    match m with
    | .inline _ => ["helper_name", "params", "hash"]
    | .element _ => ["helper_name", "params", "hash"]
    | .attribute _ _ _ => ["key", "value", "element"]
    | .content _ => ["content"]
    | .block _ _ _ => ["block_name", "params", "hash", "primary", "alternate"]
  | .node n _ =>
    match n.shape with
    | .fragment => ["children"]
    | .element _ _ _ _ _ =>
      ["children", "tag_name", "namespace", "attributes", "attribute_morphs", "element_morphs"]
    | .text _ => ["children", "contents"]
    | .comment _ => ["children", "contents"]
    | .placeholder _ _ => ["children", "morph", "parent"]
  | .slot _ _ => ["parent"]
  | .document _ => ["namespace"]
  | .environment _ _ => ["dom", "hooks"]
  | .record fields => fields.map (·.1)
  | _ => []

def added : Object → Fields
  | .morph _ added => added
  | .node _ added => added
  | .slot _ added => added
  | .function _ added => added
  | _ => []

/-- All fields of an object that has fields. -/
def all (id : ObjectId) (o : Object) : Act Entries := do
  let own ← (names o).mapM fun name => do
    let v ← read? id o name
    return (Value.str name, v.getD .null)
  return own ++ (added o).map fun (k, v) => (.str k, v)

end Field

end TemplateRecovery
