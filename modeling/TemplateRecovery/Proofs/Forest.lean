import TemplateRecovery.Proofs.Action

/-!
# The forest of a store

Nodes refer to their children, and placeholders and bound attributes refer back to their places. Each
change that a document or a hook makes to these links keeps them in order.

* `Store.children`, `Store.branches`, `Store.bound` and `Store.parent?` read the tree of a store.
* `Store.Forest` says what a forest is: no node has two places, nothing is below itself, and what
  refers back to its place refers to the right one.
-/

namespace TemplateRecovery

open Document Container

variable {s t : Store} {l : Label} {v element : Value} {id p : ObjectId} {o : Object}
  {f : Node → Node} {n : Node} {shape : Shape} {base i j : Nat} {e : Element}

/-! ### The tree of a store -/

/-- The items of a container that belongs to an object. -/
def Held.items : Held (List Value) → List Value
  | .own items => items
  | .shared _ => []

/-- The bound attributes of an element. -/
def Shape.bound : Shape → List Value
  | .element _ _ _ bound _ => bound.items
  | _ => []

def Shape.parent? : Shape → Option Value
  | .placeholder _ parent => some parent
  | _ => none

def Value.objectId? : Value → Option ObjectId
  | .object id => some id
  | _ => none

def Shape.morphId? : Shape → Option ObjectId
  | .placeholder morph _ => morph.objectId?
  | _ => none

def Node.items (n : Node) : List Value := n.children.items

/-- The bound attributes of a node. -/
def Node.bound (n : Node) : List Value := n.shape.bound

def Node.parent? (n : Node) : Option Value := n.shape.parent?

def Node.morphId? (n : Node) : Option ObjectId := n.shape.morphId?

def Morph.branches : Morph → List Value
  | .block _ primary alternate => [primary, alternate]
  | _ => []

/-- The element that a bound attribute belongs to. -/
def Morph.owner? : Morph → Option Value
  | .attribute _ _ owner => some owner
  | _ => none

namespace Store

/-- The children of a node; nothing else has any. -/
def children (s : Store) (id : ObjectId) : List Value := ((s.node? id).map Node.items).getD []

/-- The bound attributes of an element. -/
def bound (s : Store) (id : ObjectId) : List Value := ((s.node? id).map Node.bound).getD []

def parent? (s : Store) (id : ObjectId) : Option Value := (s.node? id).bind Node.parent?

/-- The branches of the block that a placeholder is bound to. -/
def branches (s : Store) (id : ObjectId) : List Value :=
  (((s.node? id).bind Node.morphId?).bind fun m => (s.morph? m).map Morph.branches).getD []

/-- The element that a bound attribute belongs to. -/
def owner? (s : Store) (id : ObjectId) : Option Value := (s.morph? id).bind Morph.owner?

/-- One node is directly below another: it is a child, or a branch of the block that a placeholder is
bound to. -/
def Edge (s : Store) (a b : ObjectId) : Prop := .object b ∈ s.children a ∨ .object b ∈ s.branches a

/-- **A forest.** -/
structure Forest (s : Store) : Prop where
  /-- All containers of nodes are their own. -/
  owned : s.Owned
  /-- No node stands twice in one list of children. -/
  nodup : ∀ q, (s.children q).Nodup
  /-- No node stands in two lists of children. -/
  unique : ∀ p q c, c ∈ s.children p → c ∈ s.children q → p = q
  /-- No node is below itself. -/
  acyclic : ∀ a, ¬ Relation.TransGen s.Edge a a
  /-- A placeholder among the children of a node remembers this node. -/
  parent : ∀ q c v, .object c ∈ s.children q → s.parent? c = some v → v = .object q
  /-- A bound attribute stands once, and only, among those of the element that it belongs to. -/
  owner : ∀ m v, s.owner? m = some v → ∃ e, v = .object e ∧
    (s.bound e).count (.object m) = 1 ∧ ∀ e', .object m ∈ s.bound e' → e' = e

/-! ### Kinds of objects -/

/-- A value is an object of some kind. -/
def Has (s : Store) (l : Label) (v : Value) : Prop :=
  ∃ id o, v = .object id ∧ s.object? id = some o ∧ Method.kindOf? o = some l

def IsNode (s : Store) (v : Value) : Prop := ∃ kind, s.Has (.node kind) v

/-- A value is neither a node nor a morph: plain data, or an expression. -/
def Data (s : Store) (v : Value) : Prop :=
  s.isPrinted v = false ∧ ∀ id, v = .object id → ∃ o, s.object? id = some o

/-- Everything in a store is of the same kind in a later one. -/
def Keeps (s t : Store) : Prop :=
  ∀ id o, s.object? id = some o →
    ∃ o', t.object? id = some o' ∧ Method.kindOf? o' = Method.kindOf? o

theorem Has.mono (h : s.Has l v) (hst : s.Keeps t) : t.Has l v := by
  obtain ⟨id, o, hv, ho, hl⟩ := h
  obtain ⟨o', ho', hkind⟩ := hst id o ho
  exact ⟨id, o', hv, ho', hkind.trans hl⟩

theorem IsNode.mono (h : s.IsNode v) (hst : s.Keeps t) : t.IsNode v := by
  obtain ⟨kind, h⟩ := h
  exact ⟨kind, h.mono hst⟩

/-- Whether an object of a kind is a node or a morph. -/
def isPartKind : Option Label → Bool
  | some (.node _) => true
  | some (.morph _) => true
  | _ => false

theorem isPrinted_object (h : s.object? id = some o) :
    s.isPrinted (.object id) = isPartKind (Method.kindOf? o) := by
  unfold isPrinted
  rw [asObject?_of_object? h]
  cases o <;> rfl

theorem Data.mono (h : s.Data v) (hst : s.Keeps t) : t.Data v := by
  cases v with
  | object id =>
    obtain ⟨o, ho⟩ := h.2 id rfl
    obtain ⟨o', ho', hkind⟩ := hst id o ho
    refine ⟨?_, fun i hi => ?_⟩
    · rw [isPrinted_object ho', hkind, ← isPrinted_object ho]
      exact h.1
    · cases hi
      exact ⟨o', ho'⟩
  | _ => exact ⟨rfl, fun _ hi => nomatch hi⟩

theorem data_of_not_object (h : ∀ id, v ≠ .object id) : s.Data v := by
  refine ⟨?_, fun id hid => absurd hid (h id)⟩
  cases v with
  | object id => exact absurd rfl (h id)
  | _ => rfl

theorem keeps_push (s : Store) (o : Object) : s.Keeps (s.push o) :=
  fun _ p h => ⟨p, object?_push_of_some h o, rfl⟩

theorem keeps_update (s : Store) (id : ObjectId) {f : Object → Object}
    (hf : ∀ o, Method.kindOf? (f o) = Method.kindOf? o) : s.Keeps (s.update id f) := by
  intro x o ho
  rw [object?_update, ho]
  split_ifs
  · exact ⟨f o, rfl, hf o⟩
  · exact ⟨o, rfl, rfl⟩

theorem keeps_updateNode (s : Store) (id : ObjectId) (hf : ∀ n, (f n).shape.kind = n.shape.kind) :
    s.Keeps (s.updateNode id f) := by
  refine keeps_update s id fun o => ?_
  cases o with
  | node n added => exact congrArg (fun k => some (Label.node k)) (hf n)
  | _ => rfl

theorem keeps_updateMorph (s : Store) (id : ObjectId) {f : Morph → Morph}
    (hf : ∀ m, (f m).kind = m.kind) : s.Keeps (s.updateMorph id f) := by
  refine keeps_update s id fun o => ?_
  cases o with
  | morph m added => exact congrArg (fun k => some (Label.morph k)) (hf m)
  | _ => rfl

theorem has_of_node? (h : s.node? id = some n) : s.Has (.node n.shape.kind) (.object id) := by
  obtain ⟨o, ho, hn⟩ := Option.bind_eq_some_iff.1 h
  cases o with
  | node m added => cases hn; exact ⟨id, _, rfl, ho, rfl⟩
  | _ => cases hn

theorem isNode_of_node? (h : s.node? id = some n) : s.IsNode (.object id) := ⟨_, has_of_node? h⟩

theorem IsNode.node? (h : s.IsNode v) : ∃ id n, v = .object id ∧ s.node? id = some n := by
  obtain ⟨kind, id, o, hv, ho, hkind⟩ := h
  cases o with
  | node n added => exact ⟨id, n, hv, by rw [Store.node?, ho]; rfl⟩
  | _ => cases hkind

theorem Has.index_lt (h : s.Has l (.object id)) : id.index < s.objects.size := by
  obtain ⟨i, o, hi, ho, -⟩ := h
  cases hi
  exact index_lt_of_object? ho

theorem Has.ne_next (h : s.Has l v) : v ≠ .object s.next := by
  rintro rfl
  exact lt_irrefl _ h.index_lt

theorem IsNode.ne_next (h : s.IsNode v) : v ≠ .object s.next := by
  obtain ⟨kind, h⟩ := h
  exact h.ne_next

end Store

/-! ### Sound stores -/

/-- A helper has a name, and containers of its own whose values are of some sort. -/
structure HelperCall.Sound (P : Value → Prop) (c : HelperCall) : Prop where
  name : ∃ name, c.name = .str name
  params : ∃ items, c.params = .own items ∧ ∀ v ∈ items, P v
  hash : ∃ entries, c.hash = .own entries ∧ ∀ e ∈ entries, (∃ key, e.1 = .str key) ∧ P e.2

theorem HelperCall.Sound.mono {P Q : Value → Prop} {c : HelperCall} (h : c.Sound P)
    (hpq : ∀ v, P v → Q v) : c.Sound Q := by
  obtain ⟨name, ⟨items, hitems, hparams⟩, entries, hentries, hhash⟩ := h
  exact ⟨name, ⟨items, hitems, fun v hv => hpq v (hparams v hv)⟩, entries, hentries,
    fun e he => ⟨(hhash e he).1, hpq e.2 (hhash e he).2⟩⟩

namespace Store

/-- A value that is data and, if it is an object, older than another one. -/
def Older (s : Store) (id : ObjectId) (v : Value) : Prop :=
  s.Data v ∧ ∀ i, v = .object i → i.index < id.index

theorem Older.mono (h : s.Older id v) (hst : s.Keeps t) : t.Older id v := ⟨h.1.mono hst, h.2⟩

theorem Data.older (h : s.Data v) : s.Older s.next v := by
  refine ⟨h, fun i hi => ?_⟩
  obtain ⟨o, ho⟩ := h.2 i hi
  exact index_lt_of_object? ho

end Store

/-- An expression holds data that are older than itself. -/
def Expression.Sound (s : Store) (id : ObjectId) : Expression → Prop
  | .literal v => s.Data v
  | .path p => s.Data p
  | .concat parts => ∃ items, parts = .own items ∧ ∀ v ∈ items, s.Older id v
  | .subexpr c => c.Sound (s.Older id)

/-- A morph holds data, and a block has branches. -/
def Morph.Sound (s : Store) : Morph → Prop
  | .inline c => c.Sound s.Data
  | .element c => c.Sound s.Data
  | .attribute _ value owner => s.Data value ∧ s.Has (.node .element) owner
  | .content v => s.Data v
  | .block c primary alternate =>
    c.Sound s.Data ∧ s.IsNode primary ∧ (alternate = .null ∨ s.IsNode alternate)

/-- What a node holds besides its children is of the right kind. -/
def Shape.Sound (s : Store) : Shape → Prop
  | .element _ _ attributes bound modifiers =>
    (∃ entries, attributes = .own entries ∧ ∀ e ∈ entries, ∃ text, e.2 = .str text) ∧
      (∃ items, bound = .own items ∧ ∀ v ∈ items, s.Has (.morph .attribute) v) ∧
        ∃ items, modifiers = .own items ∧ ∀ v ∈ items, s.Has (.morph .element) v
  | .placeholder morph _ => morph = .null ∨ ∃ kind, s.Has (.morph kind) morph
  | _ => True

/-- A node has nodes for its children. -/
structure Node.Sound (s : Store) (n : Node) : Prop where
  children : ∃ items, n.children = .own items ∧ ∀ v ∈ items, s.IsNode v
  shape : n.shape.Sound s

theorem Expression.Sound.mono {e : Expression} (h : e.Sound s id) (hst : s.Keeps t) :
    e.Sound t id := by
  cases e with
  | literal v => exact Store.Data.mono h hst
  | path p => exact Store.Data.mono h hst
  | concat parts =>
    obtain ⟨items, hparts, hitems⟩ := h
    exact ⟨items, hparts, fun v hv => (hitems v hv).mono hst⟩
  | subexpr c => exact HelperCall.Sound.mono h fun v hv => hv.mono hst

theorem Morph.Sound.mono {m : Morph} (h : m.Sound s) (hst : s.Keeps t) : m.Sound t := by
  have hcall : ∀ {c : HelperCall}, c.Sound s.Data → c.Sound t.Data :=
    fun hc => hc.mono fun v hv => hv.mono hst
  cases m with
  | inline c => exact hcall h
  | element c => exact hcall h
  | «attribute» key value owner => exact ⟨h.1.mono hst, h.2.mono hst⟩
  | content v => exact Store.Data.mono h hst
  | block c primary alternate =>
    exact ⟨hcall h.1, h.2.1.mono hst, h.2.2.imp_right fun ha => ha.mono hst⟩

theorem Shape.Sound.mono (h : shape.Sound s) (hst : s.Keeps t) : shape.Sound t := by
  cases shape with
  | element tag ns attributes bound modifiers =>
    obtain ⟨hattributes, ⟨bs, hbound, hbs⟩, ms, hmodifiers, hms⟩ := h
    exact ⟨hattributes, ⟨bs, hbound, fun v hv => (hbs v hv).mono hst⟩, ms, hmodifiers,
      fun v hv => (hms v hv).mono hst⟩
  | placeholder morph parent => exact h.imp_right fun ⟨kind, hk⟩ => ⟨kind, hk.mono hst⟩
  | _ => trivial

theorem Node.Sound.mono (h : n.Sound s) (hst : s.Keeps t) : n.Sound t := by
  obtain ⟨⟨items, hchildren, hitems⟩, hshape⟩ := h
  exact ⟨⟨items, hchildren, fun v hv => (hitems v hv).mono hst⟩, hshape.mono hst⟩

/-- Everything in a store is sound. -/
structure Store.Sound (s : Store) : Prop where
  node : ∀ id n, s.node? id = some n → n.Sound s
  morph : ∀ id m, s.morph? id = some m → m.Sound s
  expression : ∀ id e, s.expression? id = some e → e.Sound s id

theorem Node.Sound.owned (h : n.Sound s) : n.Owned := by
  obtain ⟨shape, children⟩ := n
  obtain ⟨⟨items, hchildren, -⟩, hshape⟩ := h
  refine ⟨⟨items, hchildren⟩, ?_⟩
  cases shape with
  | element tag ns attributes bound modifiers =>
    obtain ⟨⟨as, has, -⟩, ⟨bs, hbs, -⟩, ms, hms, -⟩ := hshape
    exact ⟨⟨as, has⟩, ⟨bs, hbs⟩, ms, hms⟩
  | _ => trivial

namespace Store

theorem Sound.owned (h : s.Sound) : s.Owned := fun id n hn => (h.node id n hn).owned

/-- An object that is neither a node nor a morph, and sound if it is an expression. -/
def Admits (s : Store) (o : Object) : Prop :=
  isPartKind (Method.kindOf? o) = false ∧ ∀ e, o.expression? = some e → e.Sound s s.next

theorem node?_eq_none_of_not_part (h : isPartKind (Method.kindOf? o) = false) : o.node? = none := by
  cases o <;> first | rfl | cases h

theorem morph?_eq_none_of_not_part (h : isPartKind (Method.kindOf? o) = false) :
    o.morph? = none := by
  cases o <;> first | rfl | cases h

theorem node?_next (s : Store) : s.node? s.next = none := by rw [node?, object?_next]; rfl

theorem morph?_next (s : Store) : s.morph? s.next = none := by rw [morph?, object?_next]; rfl

/-- A store stays sound when a sound object is added. -/
theorem Sound.push (hs : s.Sound) (hnode : ∀ n, o.node? = some n → n.Sound (s.push o))
    (hmorph : ∀ m, o.morph? = some m → m.Sound (s.push o))
    (hexpression : ∀ e, o.expression? = some e → e.Sound (s.push o) s.next) : (s.push o).Sound := by
  have hkeeps := s.keeps_push o
  refine ⟨fun id n hn => ?_, fun id m hm => ?_, fun id e he => ?_⟩
  · rw [node?_push] at hn
    split_ifs at hn
    · exact hnode n hn
    · exact (hs.node id n hn).mono hkeeps
  · rw [morph?_push] at hm
    split_ifs at hm
    · exact hmorph m hm
    · exact (hs.morph id m hm).mono hkeeps
  · rw [expression?_push] at he
    split_ifs at he with hid
    · rw [hid]
      exact hexpression e he
    · exact (hs.expression id e he).mono hkeeps

theorem Sound.push_morph (hs : s.Sound) {m : Morph} (hm : m.Sound s) :
    (s.push (.morph m [])).Sound := by
  refine hs.push (fun n hn => ?_) (fun m' hm' => ?_) fun e he => ?_
  · cases hn
  · cases hm'
    exact hm.mono (s.keeps_push _)
  · cases he

/-- A store stays sound when a morph changes into a sound one of the same kind. -/
theorem Sound.updateMorph (hs : s.Sound) (id : ObjectId) {f : Morph → Morph}
    (hkind : ∀ m, (f m).kind = m.kind)
    (hf : ∀ m, m.Sound (s.updateMorph id f) → (f m).Sound (s.updateMorph id f)) :
    (s.updateMorph id f).Sound := by
  have hkeeps := s.keeps_updateMorph id hkind
  refine ⟨fun x n hn => ?_, fun x m hm => ?_, fun x e he => ?_⟩
  · rw [node?_updateMorph] at hn
    exact (hs.node x n hn).mono hkeeps
  · rw [morph?_updateMorph] at hm
    split_ifs at hm with hx
    · obtain ⟨m', hm', rfl⟩ := Option.map_eq_some_iff.1 hm
      exact hf m' ((hs.morph x m' hm').mono hkeeps)
    · exact (hs.morph x m hm).mono hkeeps
  · rw [expression?_updateMorph] at he
    exact (hs.expression x e he).mono hkeeps

/-- A store stays sound when a node changes into a sound one of the same kind. -/
theorem Sound.updateNode (hs : s.Sound) (id : ObjectId)
    (hkind : ∀ n, (f n).shape.kind = n.shape.kind)
    (hf : ∀ n, s.node? id = some n → n.Sound (s.updateNode id f) →
      (f n).Sound (s.updateNode id f)) : (s.updateNode id f).Sound := by
  have hkeeps := s.keeps_updateNode id hkind
  refine ⟨fun x n hn => ?_, fun x m hm => ?_, fun x e he => ?_⟩
  · rw [node?_updateNode] at hn
    split_ifs at hn with hx
    · subst hx
      obtain ⟨n', hn', rfl⟩ := Option.map_eq_some_iff.1 hn
      exact hf n' hn' ((hs.node x n' hn').mono hkeeps)
    · exact (hs.node x n hn).mono hkeeps
  · rw [morph?_updateNode] at hm
    exact (hs.morph x m hm).mono hkeeps
  · rw [expression?_updateNode] at he
    exact (hs.expression x e he).mono hkeeps

/-- A store stays sound when a shape changes into a sound one of the same kind. -/
theorem Sound.withShape (hs : s.Sound) (id : ObjectId) {f : Shape → Shape}
    (hkind : ∀ shape, (f shape).kind = shape.kind)
    (hf : ∀ shape, shape.Sound (s.updateNode id (withShape f)) →
      (f shape).Sound (s.updateNode id (withShape f))) :
    (s.updateNode id (withShape f)).Sound :=
  hs.updateNode id (fun n => hkind n.shape) fun n _ hn => ⟨hn.children, hf n.shape hn.shape⟩

end Store

/-! ### Reading a changed store -/

namespace Store

/-- What does not change about a node does not change in the store. -/
theorem read_updateNode {α : Type} (π : Option Node → α) (h : ∀ n, π (some (f n)) = π (some n))
    (s : Store) (id x : ObjectId) : π ((s.updateNode id f).node? x) = π (s.node? x) := by
  rw [node?_updateNode]
  split_ifs
  · cases s.node? x with
    | none => rfl
    | some n => exact h n
  · rfl

theorem children_updateNode (f : Node → Node) (h : ∀ n, (f n).items = n.items) (s : Store)
    (id : ObjectId) : (s.updateNode id f).children = s.children :=
  funext (read_updateNode (fun n => (n.map Node.items).getD []) h s id)

theorem bound_updateNode (f : Node → Node) (h : ∀ n, (f n).bound = n.bound) (s : Store)
    (id : ObjectId) : (s.updateNode id f).bound = s.bound :=
  funext (read_updateNode (fun n => (n.map Node.bound).getD []) h s id)

theorem parent?_updateNode (f : Node → Node) (h : ∀ n, (f n).parent? = n.parent?) (s : Store)
    (id : ObjectId) : (s.updateNode id f).parent? = s.parent? :=
  funext (read_updateNode (·.bind Node.parent?) h s id)

theorem branches_updateNode (f : Node → Node) (h : ∀ n, (f n).morphId? = n.morphId?) (s : Store)
    (id : ObjectId) : (s.updateNode id f).branches = s.branches := by
  funext x
  rw [branches, branches, read_updateNode (·.bind Node.morphId?) h]
  simp only [morph?_updateNode]

theorem owner?_updateNode (s : Store) (id : ObjectId) (f : Node → Node) :
    (s.updateNode id f).owner? = s.owner? := by
  funext x
  rw [owner?, owner?, morph?_updateNode]

theorem children_withChildren (hn : s.node? id = some n) (items : List Value) (x : ObjectId) :
    (s.updateNode id (withChildren items)).children x =
      if x = id then items else s.children x := by
  rw [children, node?_updateNode]
  split_ifs with hx
  · rw [hx, hn]
    rfl
  · rfl

theorem branches_withChildren (s : Store) (id : ObjectId) (items : List Value) :
    (s.updateNode id (withChildren items)).branches = s.branches :=
  branches_updateNode (withChildren items) (fun _ => rfl) s id

theorem bound_withChildren (s : Store) (id : ObjectId) (items : List Value) :
    (s.updateNode id (withChildren items)).bound = s.bound :=
  bound_updateNode (withChildren items) (fun _ => rfl) s id

theorem parent?_withChildren (s : Store) (id : ObjectId) (items : List Value) :
    (s.updateNode id (withChildren items)).parent? = s.parent? :=
  parent?_updateNode (withChildren items) (fun _ => rfl) s id

theorem children_withShape (s : Store) (id : ObjectId) (f : Shape → Shape) :
    (s.updateNode id (withShape f)).children = s.children :=
  children_updateNode (withShape f) (fun _ => rfl) s id

/-- A change of shape that keeps the morph of a placeholder keeps its branches. -/
theorem branches_withShape {f : Shape → Shape} (h : ∀ shape, (f shape).morphId? = shape.morphId?)
    (s : Store) (id : ObjectId) :
    (s.updateNode id (withShape f)).branches = s.branches :=
  branches_updateNode (withShape f) (fun n => h n.shape) s id

theorem bound_withShape {f : Shape → Shape} (h : ∀ shape, (f shape).bound = shape.bound)
    (s : Store) (id : ObjectId) : (s.updateNode id (withShape f)).bound = s.bound :=
  bound_updateNode (withShape f) (fun n => h n.shape) s id

theorem parent?_withShape {f : Shape → Shape} (h : ∀ shape, (f shape).parent? = shape.parent?)
    (s : Store) (id : ObjectId) : (s.updateNode id (withShape f)).parent? = s.parent? :=
  parent?_updateNode (withShape f) (fun n => h n.shape) s id

/-- What a new object does not show does not change in the store. -/
theorem read_push {α : Type} (π : Option Node → α) (h : π o.node? = π none) (s : Store)
    (x : ObjectId) : π ((s.push o).node? x) = π (s.node? x) := by
  rw [node?_push]
  split_ifs with hx
  · rw [hx, node?_next, h]
  · rfl

theorem children_push (s : Store) (h : (o.node?.map Node.items).getD [] = []) :
    (s.push o).children = s.children :=
  funext (read_push (fun n => (n.map Node.items).getD []) h s)

theorem bound_push (s : Store) (h : (o.node?.map Node.bound).getD [] = []) :
    (s.push o).bound = s.bound :=
  funext (read_push (fun n => (n.map Node.bound).getD []) h s)

theorem parent?_push (s : Store) (h : o.node?.bind Node.parent? = none) :
    (s.push o).parent? = s.parent? :=
  funext (read_push (·.bind Node.parent?) h s)

theorem owner?_push (s : Store) (o : Object) (x : ObjectId) :
    (s.push o).owner? x = if x = s.next then o.morph?.bind Morph.owner? else s.owner? x := by
  rw [owner?, morph?_push]
  split_ifs <;> rfl

theorem owner?_push_eq (s : Store) (h : o.morph?.bind Morph.owner? = none) :
    (s.push o).owner? = s.owner? := by
  funext x
  rw [owner?_push]
  split_ifs with hx
  · rw [hx, h, owner?, morph?_next]
    rfl
  · rfl

theorem children_next (s : Store) : s.children s.next = [] := by rw [children, node?_next]; rfl

theorem branches_next (s : Store) : s.branches s.next = [] := by rw [branches, node?_next]; rfl

end Store

/-! ### Ranks -/

/-- Steps of a relation lead down. -/
def Ranked (R : ObjectId → ObjectId → Prop) : Prop :=
  ∃ rank : ObjectId → Nat, ∀ a b, R a b → rank b < rank a

theorem Ranked.mono {R R' : ObjectId → ObjectId → Prop} (h : Ranked R)
    (hR : ∀ a b, R' a b → R a b) : Ranked R' := by
  obtain ⟨rank, h⟩ := h
  exact ⟨rank, fun a b hab => h a b (hR a b hab)⟩

theorem Ranked.acyclic {R : ObjectId → ObjectId → Prop} (h : Ranked R) (a : ObjectId) :
    ¬ Relation.TransGen R a a := by
  obtain ⟨rank, h⟩ := h
  have hlt : ∀ {x y}, Relation.TransGen R x y → rank y < rank x := by
    intro x y hxy
    induction hxy with
    | single hstep => exact h _ _ hstep
    | tail _ hstep ih => exact (h _ _ hstep).trans ih
  exact fun ha => lt_irrefl _ (hlt ha)

/-- More steps from one place are harmless if there is no way back from where they lead. -/
theorem Ranked.insert {R : ObjectId → ObjectId → Prop} (h : Ranked R) {a : ObjectId}
    {bs : List ObjectId} (hbs : ∀ b ∈ bs, ¬ Relation.ReflTransGen R b a) :
    Ranked fun x y => R x y ∨ x = a ∧ y ∈ bs := by
  classical
  obtain ⟨rank, h⟩ := h
  -- everything from which `a` can be reached is lifted above all of `bs`
  refine ⟨fun x => if Relation.ReflTransGen R x a then rank x + (bs.map rank).sum + 1 else rank x,
    fun x y hxy => ?_⟩
  simp only
  obtain hxy | ⟨rfl, hy⟩ := hxy
  · have hlt := h x y hxy
    by_cases hy : Relation.ReflTransGen R y a
    · rw [if_pos hy, if_pos (Relation.ReflTransGen.head hxy hy)]
      omega
    · rw [if_neg hy]
      split_ifs <;> omega
  · have hle : rank y ≤ (bs.map rank).sum :=
      List.le_sum_of_mem (List.mem_map_of_mem hy)
    rw [if_neg (hbs y hy), if_pos Relation.ReflTransGen.refl]
    omega

/-! ### Orderly stores -/

namespace Store

/-- A store as a run leaves it that worked on the objects from `base` on: a forest of sound objects in
which no way leads below `base`. -/
structure Orderly (base : Nat) (s : Store) : Prop where
  sound : s.Sound
  nodup : ∀ q, (s.children q).Nodup
  unique : ∀ p q c, c ∈ s.children p → c ∈ s.children q → p = q
  ranked : Ranked s.Edge
  parent : ∀ q c v, .object c ∈ s.children q → s.parent? c = some v → v = .object q
  owner : ∀ m v, s.owner? m = some v → ∃ e, v = .object e ∧
    (s.bound e).count (.object m) = 1 ∧ ∀ e', .object m ∈ s.bound e' → e' = e
  closed : ∀ a b, base ≤ a.index → s.Edge a b → base ≤ b.index

theorem Orderly.forest (h : s.Orderly base) : s.Forest :=
  ⟨h.sound.owned, h.nodup, h.unique, h.ranked.acyclic, h.parent, h.owner⟩

theorem Orderly.of_same_tree (hs : s.Orderly base) (ht : t.Sound)
    (hchildren : t.children = s.children) (hbranches : t.branches = s.branches)
    (hparent : t.parent? = s.parent?) (hbound : t.bound = s.bound) (howner : t.owner? = s.owner?) :
    t.Orderly base := by
  have hedge : t.Edge = s.Edge := by
    funext a b
    rw [Edge, Edge, hchildren, hbranches]
  exact ⟨ht, hchildren ▸ hs.nodup, hchildren ▸ hs.unique, hedge ▸ hs.ranked,
    hchildren ▸ hparent ▸ hs.parent, howner ▸ hbound ▸ hs.owner, hedge ▸ hs.closed⟩

/-- A placeholder of a sound store is bound to a morph that is there. -/
theorem Sound.morphId?_ne_next (hs : s.Sound) {m : ObjectId}
    (h : (s.node? id).bind Node.morphId? = some m) : m ≠ s.next := by
  obtain ⟨⟨shape, children⟩, hn, hm⟩ := Option.bind_eq_some_iff.1 h
  have hshape := (hs.node id _ hn).shape
  cases shape with
  | placeholder morph parent =>
    cases morph with
    | object i =>
      cases hm
      obtain hnull | ⟨kind, hkind⟩ := hshape
      · cases hnull
      · rintro rfl
        exact hkind.ne_next rfl
    | _ => cases hm
  | _ => cases hm

/-- A new object does not change the branches of placeholders that are there. -/
theorem branches_push_of_ne (hs : s.Sound) (o : Object) {x : ObjectId} (hx : x ≠ s.next) :
    (s.push o).branches x = s.branches x := by
  rw [branches, branches, node?_push, if_neg hx]
  cases h : (s.node? x).bind Node.morphId? with
  | none => rfl
  | some m =>
    simp only [Option.bind_some]
    rw [morph?_push, if_neg (hs.morphId?_ne_next h)]

theorem branches_push (hs : s.Sound) (h : o.node?.bind Node.morphId? = none) :
    (s.push o).branches = s.branches := by
  funext x
  by_cases hx : x = s.next
  · rw [hx, branches_next, branches, node?_push, if_pos rfl, h]
    rfl
  · exact branches_push_of_ne hs o hx

/-- A new object that is not linked to anything. -/
theorem Orderly.push (hs : s.Orderly base) (hsound : (s.push o).Sound)
    (hitems : (o.node?.map Node.items).getD [] = [])
    (hbound : (o.node?.map Node.bound).getD [] = []) (hparent : o.node?.bind Node.parent? = none)
    (hmorph : o.node?.bind Node.morphId? = none) (howner : o.morph?.bind Morph.owner? = none) :
    (s.push o).Orderly base :=
  hs.of_same_tree hsound (children_push s hitems) (branches_push hs.sound hmorph)
    (parent?_push s hparent) (bound_push s hbound) (owner?_push_eq s howner)

theorem Orderly.push_data (hs : s.Orderly base) (ho : s.Admits o) : (s.push o).Orderly base := by
  have hnode := node?_eq_none_of_not_part ho.1
  have hmorph := morph?_eq_none_of_not_part ho.1
  refine hs.push (hs.sound.push ?_ ?_ ?_) ?_ ?_ ?_ ?_ ?_
  · simp [hnode]
  · simp [hmorph]
  · exact fun e he => (ho.2 e he).mono (s.keeps_push o)
  all_goals simp [hnode, hmorph]

/-- A new node without children. -/
theorem Orderly.push_node (hs : s.Orderly base) (hshape : ∀ t : Store, shape.Sound t)
    (hbound : shape.bound = []) (hplaceholder : shape.kind ≠ .placeholder) :
    (s.push (.node ⟨shape, .own []⟩ [])).Orderly base := by
  have hparent : shape.parent? = none := by
    cases shape <;> first | rfl | exact absurd rfl hplaceholder
  have hmorph : shape.morphId? = none := by
    cases shape <;> first | rfl | exact absurd rfl hplaceholder
  refine hs.push (hs.sound.push ?_ ?_ ?_) rfl hbound hparent hmorph rfl
  · rintro n hn
    cases hn
    exact ⟨⟨[], rfl, by simp⟩, hshape _⟩
  · rintro m hm
    cases hm
  · rintro e he
    cases he

theorem Sound.isNode_of_mem_children (hs : s.Sound) {q : ObjectId} (h : v ∈ s.children q) :
    s.IsNode v := by
  unfold children at h
  cases hn : s.node? q with
  | none => rw [hn] at h; cases h
  | some n =>
    rw [hn] at h
    obtain ⟨items, hitems, hnodes⟩ := (hs.node q n hn).children
    rw [Option.map_some, Option.getD_some, Node.items, hitems] at h
    exact hnodes v h

/-- The bound attributes of a sound node are morphs of their kind. -/
theorem Sound.has_of_mem_bound (hs : s.Sound) {q : ObjectId} (h : v ∈ s.bound q) :
    s.Has (.morph .attribute) v := by
  unfold bound at h
  cases hn : s.node? q with
  | none => rw [hn] at h; cases h
  | some n =>
    obtain ⟨shape, children⟩ := n
    rw [hn] at h
    have hshape := (hs.node q _ hn).shape
    cases shape with
    | element tag ns attributes bound modifiers =>
      obtain ⟨-, ⟨items, hitems, hbound⟩, -⟩ := hshape
      subst hitems
      exact hbound v h
    | _ => cases h

theorem children_of_node? {items : List Value} (hn : s.node? id = some n)
    (hitems : n.children = .own items) : s.children id = items := by
  rw [children, hn, Option.map_some, Option.getD_some, Node.items, hitems]
  rfl

/-- A shape keeps its kind and stays sound below another parent. -/
theorem kind_adopt (parent : Value) (shape : Shape) : (adopt parent shape).kind = shape.kind := by
  cases shape <;> rfl

theorem sound_adopt (parent : Value) (h : shape.Sound s) : (adopt parent shape).Sound s := by
  cases shape <;> exact h

/-- The children of a node after it got others. -/
theorem Sound.withChildren (hs : s.Sound) {items : List Value} (hitems : ∀ v ∈ items, s.IsNode v) :
    (s.updateNode p (withChildren items)).Sound := by
  refine hs.updateNode p (fun _ => rfl) fun n _ hn => ⟨⟨items, rfl, fun v hv => ?_⟩, hn.shape⟩
  exact (hitems v hv).mono (s.keeps_updateNode p fun _ => rfl)

section Changes

variable (hs : s.Orderly base)

include hs

/-- A change that gives a node without a place its place below another one, and may take places away
from others. -/
theorem Orderly.of_new_place (ht : t.Sound) {c : ObjectId}
    (hfree : ∀ q, .object c ∉ s.children q) (hreach : ¬ Relation.ReflTransGen s.Edge c p)
    (hbase : base ≤ p.index → base ≤ c.index)
    (hmem : ∀ q v, v ∈ t.children q → v ∈ s.children q ∨ q = p ∧ v = .object c)
    (hnodup : ∀ q, (t.children q).Nodup) (hbranches : t.branches = s.branches)
    (hparent : ∀ x, x ≠ c → t.parent? x = s.parent? x)
    (hplace : ∀ v, t.parent? c = some v → v = .object p) (hbound : t.bound = s.bound)
    (howner : t.owner? = s.owner?) : t.Orderly base := by
  have hedge : ∀ a b, t.Edge a b → s.Edge a b ∨ a = p ∧ b ∈ [c] := by
    rintro a b (h | h)
    · rcases hmem a _ h with h | ⟨ha, hb⟩
      · exact .inl (.inl h)
      · exact .inr ⟨ha, by simpa using hb⟩
    · rw [hbranches] at h
      exact .inl (.inr h)
  have hback : ∀ b ∈ [c], ¬ Relation.ReflTransGen s.Edge b p := by simpa using hreach
  refine ⟨ht, hnodup, fun q q' v hv hv' => ?_, (hs.ranked.insert hback).mono hedge,
    fun q x v hx hv => ?_, howner ▸ hbound ▸ hs.owner, fun a b ha hab => ?_⟩
  · rcases hmem q v hv with hold | ⟨rfl, rfl⟩
    · rcases hmem q' v hv' with hold' | ⟨rfl, rfl⟩
      · exact hs.unique q q' v hold hold'
      · exact absurd hold (hfree q)
    · rcases hmem q' _ hv' with hold' | ⟨rfl, -⟩
      · exact absurd hold' (hfree q')
      · rfl
  · rcases hmem q _ hx with hold | ⟨rfl, hc⟩
    · have hne : x ≠ c := by
        rintro rfl
        exact hfree q hold
      exact hs.parent q x v hold (hparent x hne ▸ hv)
    · cases hc
      exact hplace v hv
  · rcases hedge a b hab with hab | ⟨rfl, hb⟩
    · exact hs.closed a b ha hab
    · rw [List.mem_singleton.1 hb]
      exact hbase ha

/-- **Appending** a node that has no place yet to one that is not below it. -/
theorem Orderly.append {c : ObjectId} {m : Node} {items : List Value}
    (hn : s.node? p = some n) (hitems : n.children = .own items) (hm : s.node? c = some m)
    (hfree : ∀ q, .object c ∉ s.children q) (hreach : ¬ Relation.ReflTransGen s.Edge c p)
    (hbase : base ≤ p.index → base ≤ c.index) :
    ((s.updateNode p (withChildren (items ++ [.object c]))).updateNode c
      (withShape (adopt (.object p)))).Orderly base := by
  have hpc : c ≠ p := fun h => hreach (h ▸ .refl)
  have hold := children_of_node? hn hitems
  have hnodes : ∀ v ∈ items ++ [.object c], s.IsNode v := by
    intro v hv
    rcases List.mem_append.1 hv with hv | hv
    · exact hs.sound.isNode_of_mem_children (hold ▸ hv)
    · rw [List.mem_singleton.1 hv]
      exact isNode_of_node? hm
  set s₁ := s.updateNode p (withChildren (items ++ [.object c])) with hs₁
  set t := s₁.updateNode c (withShape (adopt (.object p))) with ht
  have hsound : t.Sound := (hs.sound.withChildren hnodes).withShape c (kind_adopt _) fun _ =>
    sound_adopt _
  have hchildren : ∀ x, t.children x = if x = p then items ++ [.object c] else s.children x := by
    intro x
    rw [ht, children_withShape, hs₁, children_withChildren hn]
  have hbranches : t.branches = s.branches := by
    rw [ht, branches_withShape fun shape => by cases shape <;> rfl, hs₁, branches_withChildren]
  have hbound : t.bound = s.bound := by
    rw [ht, bound_withShape fun shape => by cases shape <;> rfl, hs₁, bound_withChildren]
  have howner : t.owner? = s.owner? := by
    rw [ht, owner?_updateNode, hs₁, owner?_updateNode]
  refine hs.of_new_place hsound hfree hreach hbase (fun q v hv => ?_) (fun q => ?_) hbranches
    (fun x hx => ?_) (fun v hv => ?_) hbound howner
  · rw [hchildren] at hv
    split_ifs at hv with hq
    · rcases List.mem_append.1 hv with hv | hv
      · exact .inl (by rw [hq, hold]; exact hv)
      · exact .inr ⟨hq, List.mem_singleton.1 hv⟩
    · exact .inl hv
  · rw [hchildren]
    split_ifs with hq
    · exact List.nodup_append.2 ⟨hold ▸ hs.nodup p, by simp, fun a ha b hb hab =>
        hfree p (by rw [hold, ← List.mem_singleton.1 hb, ← hab]; exact ha)⟩
    · exact hs.nodup q
  · rw [parent?, ht, node?_updateNode, if_neg hx, ← parent?, hs₁, parent?_withChildren]
  · rw [parent?, ht, node?_updateNode, if_pos rfl, hs₁, node?_updateNode, if_neg hpc, hm] at hv
    obtain ⟨shape, children⟩ := m
    cases shape with
    | placeholder morph parent =>
      cases hv
      rfl
    | _ => cases hv

/-- A change of objects that are no parts of the tree. -/
theorem Orderly.of_same_parts (hkeeps : s.Keeps t) (hnode : t.node? = s.node?)
    (hmorph : t.morph? = s.morph?) (hexpression : t.expression? = s.expression?) :
    t.Orderly base := by
  have hsound : t.Sound :=
    ⟨fun id n hn => (hs.sound.node id n (hnode ▸ hn)).mono hkeeps,
      fun id m hm => (hs.sound.morph id m (hmorph ▸ hm)).mono hkeeps,
      fun id e he => (hs.sound.expression id e (hexpression ▸ he)).mono hkeeps⟩
  refine hs.of_same_tree hsound ?_ ?_ ?_ ?_ ?_
  · funext x; rw [children, children, hnode]
  · funext x; rw [branches, branches, hnode, hmorph]
  · funext x; rw [parent?, parent?, hnode]
  · funext x; rw [bound, bound, hnode]
  · funext x; rw [owner?, owner?, hmorph]

theorem Orderly.of_objects_eq (h : t.objects = s.objects) : t.Orderly base := by
  have hobject : t.object? = s.object? := funext (object?_of_objects_eq h)
  refine hs.of_same_parts (fun id o ho => ⟨o, by rw [hobject]; exact ho, rfl⟩) ?_ ?_ ?_
  · funext id; rw [node?, node?, hobject]
  · funext id; rw [morph?, morph?, hobject]
  · funext id; rw [expression?, expression?, hobject]

/-- **Setting** the namespace of a document. -/
theorem Orderly.setNamespace (id : ObjectId) (ns : Value) :
    (s.update id (withNamespace ns)).Orderly base := by
  have hread : ∀ {α : Type} (π : Object → Option α), (∀ o, π (withNamespace ns o) = π o) →
      ∀ x, ((s.update id (withNamespace ns)).object? x).bind π = (s.object? x).bind π := by
    intro α π hπ x
    rw [object?_update]
    split_ifs
    · cases s.object? x with
      | none => rfl
      | some o => exact hπ o
    · rfl
  exact hs.of_same_parts (s.keeps_update id fun o => by cases o <;> rfl)
    (funext (hread Object.node? fun o => by cases o <;> rfl))
    (funext (hread Object.morph? fun o => by cases o <;> rfl))
    (funext (hread Object.expression? fun o => by cases o <;> rfl))

omit hs in
/-- Nothing is reached from an object that is not there. -/
theorem not_reflTransGen_next (s : Store) (hp : p ≠ s.next) :
    ¬ Relation.ReflTransGen s.Edge s.next p := by
  intro h
  rcases Relation.ReflTransGen.cases_head h with h | ⟨b, hb, -⟩
  · exact hp h.symm
  · rcases hb with hb | hb
    · rw [children_next] at hb
      cases hb
    · rw [branches_next] at hb
      cases hb

omit hs in
/-- The items that are left beside a replaced range were there before. -/
theorem mem_spliced {items : List Value} {w : Value} (h : w ∈ spliced items i j v) :
    w ∈ items ∨ w = v := by
  rcases List.mem_append.1 h with h | h
  · exact .inl (List.mem_of_mem_take h)
  · rcases List.mem_cons.1 h with h | h
    · exact .inr h
    · exact .inl (List.mem_of_mem_drop h)

omit hs in
theorem nodup_spliced {items : List Value} (h : items.Nodup) (hij : i ≤ j) (hv : v ∉ items) :
    (spliced items i j v).Nodup := by
  have hsub : (items.take i ++ items.drop (j + 1)).Sublist items := by
    have hdrop : (items.drop (j + 1)).Sublist (items.drop i) :=
      List.drop_sublist_drop_left items (by omega)
    calc items.take i ++ items.drop (j + 1)
        |>.Sublist (items.take i ++ items.drop i) := List.Sublist.append_left hdrop _
      _ = items := List.take_append_drop i items
  have hrest := h.sublist hsub
  rw [spliced, List.nodup_middle, List.nodup_cons]
  refine ⟨fun hmem => hv (hsub.subset hmem), hrest⟩

/-- **Replacing** a range of children by a new placeholder. -/
theorem Orderly.splice {items : List Value} (hn : s.node? p = some n)
    (hitems : n.children = .own items) (hij : i ≤ j) (hbase : base ≤ s.objects.size) :
    ((s.push (.node ⟨.placeholder .null (.object p), .own []⟩ [])).updateNode p
      (withChildren (spliced items i j (.object s.next)))).Orderly base := by
  have hp : p ≠ s.next := by
    rintro rfl
    rw [node?_next] at hn
    cases hn
  have hold := children_of_node? hn hitems
  set s₁ := s.push (.node ⟨.placeholder .null (.object p), .own []⟩ []) with hs₁
  set t := s₁.updateNode p
    (withChildren (spliced items i j (.object s.next))) with ht
  have hn₁ : s₁.node? p = some n := by rw [hs₁, node?_push, if_neg hp, hn]
  have hslot : s₁.node? s.next = some ⟨.placeholder .null (.object p), .own []⟩ := by
    rw [hs₁, node?_push, if_pos rfl]
    rfl
  have hsound₁ : s₁.Sound := by
    refine hs.sound.push ?_ ?_ ?_
    · rintro m hm
      cases hm
      exact ⟨⟨[], rfl, by simp⟩, .inl rfl⟩
    · rintro m hm
      cases hm
    · rintro e he
      cases he
  have hfree : ∀ q, .object s.next ∉ s.children q :=
    fun q hq => (hs.sound.isNode_of_mem_children hq).ne_next rfl
  have hsound : t.Sound := by
    refine hsound₁.withChildren fun v hv => ?_
    rcases mem_spliced hv with hv | rfl
    · exact (hs.sound.isNode_of_mem_children (hold ▸ hv)).mono (s.keeps_push _)
    · exact isNode_of_node? hslot
  have hchildren : ∀ x, t.children x =
      if x = p then spliced items i j (.object s.next) else s.children x := by
    intro x
    rw [ht, children_withChildren hn₁, hs₁, children_push s rfl]
  have hbranches : t.branches = s.branches := by
    rw [ht, branches_withChildren, hs₁, branches_push hs.sound rfl]
  have hbound : t.bound = s.bound := by rw [ht, bound_withChildren, hs₁, bound_push s rfl]
  have howner : t.owner? = s.owner? := by rw [ht, owner?_updateNode, hs₁, owner?_push_eq s rfl]
  refine hs.of_new_place hsound hfree (s.not_reflTransGen_next hp) (fun _ => hbase)
    (fun q v hv => ?_) (fun q => ?_) hbranches (fun x hx => ?_) (fun v hv => ?_) hbound howner
  · rw [hchildren] at hv
    split_ifs at hv with hq
    · rcases mem_spliced hv with hv | hv
      · exact .inl (by rw [hq, hold]; exact hv)
      · exact .inr ⟨hq, hv⟩
    · exact .inl hv
  · rw [hchildren]
    split_ifs with hq
    · exact nodup_spliced (hold ▸ hs.nodup p) hij (hold ▸ hfree p)
    · exact hs.nodup q
  · rw [ht, parent?_withChildren, parent?, hs₁, node?_push, if_neg hx, parent?]
  · rw [ht, parent?_withChildren, parent?, hslot] at hv
    cases hv
    rfl

/-- **Opening** a bound attribute of an element. -/
theorem Orderly.openBound {items : List Value}
    (he : element? s element = some e) (hitems : e.bound = .own items) (name : Value) :
    ((s.push (.morph (.attribute name .null element) [])).updateNode e.id
      (withShape (withBound (.own (items ++ [.object s.next]))))).Orderly base := by
  obtain ⟨⟨shape, children⟩, tag, ns, rfl, hn, hshape⟩ := element?_eq_some_iff.1 he
  subst hshape
  have hne : e.id ≠ s.next := by
    intro h
    rw [h, node?_next] at hn
    cases hn
  have hold : s.bound e.id = items := by
    rw [bound, hn, Option.map_some, Option.getD_some, Node.bound, Shape.bound, hitems]
    rfl
  set o : Object := .morph (.attribute name .null (.object e.id)) [] with ho
  set s₁ := s.push o with hs₁
  set t := s₁.updateNode e.id
    (withShape (withBound (.own (items ++ [.object s.next])))) with ht
  have hkeeps : s.Keeps s₁ := s.keeps_push o
  have hfree : ∀ q, .object s.next ∉ s.bound q :=
    fun q hq => (hs.sound.has_of_mem_bound hq).ne_next rfl
  have hsound₁ : s₁.Sound := hs.sound.push_morph ⟨data_of_not_object (by simp), has_of_node? hn⟩
  have hnew : s₁.Has (.morph .attribute) (.object s.next) :=
    ⟨s.next, o, rfl, object?_push_next s o, rfl⟩
  have hkind : ∀ shape, (withBound (.own (items ++ [.object s.next])) shape).kind =
      shape.kind := fun shape => by cases shape <;> rfl
  have hsound : t.Sound := by
    refine hsound₁.withShape e.id hkind fun shape hshape => ?_
    cases shape with
    | element tag ns attributes bound modifiers =>
      refine ⟨hshape.1, ⟨_, rfl, fun v hv => ?_⟩, hshape.2.2⟩
      refine Has.mono ?_ (s₁.keeps_updateNode e.id fun n => hkind n.shape)
      rcases List.mem_append.1 hv with hv | hv
      · exact (hs.sound.has_of_mem_bound (hold ▸ hv)).mono hkeeps
      · rw [List.mem_singleton.1 hv]
        exact hnew
    | _ => exact hshape
  have hbound : ∀ x, t.bound x = if x = e.id then items ++ [.object s.next] else s.bound x := by
    intro x
    rw [bound, ht, node?_updateNode, hs₁, node?_push]
    split_ifs with hx hx' hx'
    · exact absurd (hx ▸ hx') hne
    · rw [hx, hn]
      rfl
    · rw [hx', bound, node?_next]
      rfl
    · rfl
  have howner : ∀ x, t.owner? x = if x = s.next then some (.object e.id) else s.owner? x := by
    intro x
    rw [ht, owner?_updateNode, hs₁, owner?_push]
    rfl
  have hchildren : t.children = s.children := by rw [ht, children_withShape, hs₁, children_push s rfl]
  have hparent : t.parent? = s.parent? := by
    rw [ht, parent?_withShape (fun shape => by cases shape <;> rfl), hs₁, parent?_push s rfl]
  have hbranches : t.branches = s.branches := by
    rw [ht, branches_withShape (fun shape => by cases shape <;> rfl), hs₁,
      branches_push hs.sound rfl]
  have hedge : t.Edge = s.Edge := by
    funext a b
    rw [Edge, Edge, hchildren, hbranches]
  refine ⟨hsound, hchildren ▸ hs.nodup, hchildren ▸ hs.unique, hedge ▸ hs.ranked,
    hchildren ▸ hparent ▸ hs.parent, fun m v hv => ?_, hedge ▸ hs.closed⟩
  rw [howner] at hv
  split_ifs at hv with hm
  · -- the new attribute stands at the end of the list that it was added to
    cases hv
    refine ⟨e.id, rfl, ?_, fun e' he' => ?_⟩
    · rw [hbound, if_pos rfl, hm, List.count_append, List.count_eq_zero.2 (hold ▸ hfree e.id)]
      simp
    · rw [hbound] at he'
      split_ifs at he' with heq
      · exact heq
      · exact absurd (hm ▸ he') (hfree e')
  · obtain ⟨e₀, rfl, hcount, honly⟩ := hs.owner m v hv
    refine ⟨e₀, rfl, ?_, fun e' he' => honly e' ?_⟩
    · rw [hbound]
      split_ifs with heq
      · rw [List.count_append, ← hold, ← heq, hcount]
        simp [Ne.symm hm]
      · exact hcount
    · rw [hbound] at he'
      split_ifs at he' with heq
      · rw [heq, hold]
        rcases List.mem_append.1 he' with he' | he'
        · exact he'
        · exact absurd (by simpa using he') hm
      · exact he'

/-- **Binding** a placeholder to a new morph from whose branches it cannot be reached. -/
theorem Orderly.bind {slot : ObjectId} (hn : s.node? slot = some n)
    (hkind : n.shape.kind = .placeholder) {m : Morph} (hm : m.Sound s) (howner : m.owner? = none)
    (hreach : ∀ b, .object b ∈ m.branches → ¬ Relation.ReflTransGen s.Edge b slot)
    (hbase : ∀ b, .object b ∈ m.branches → base ≤ slot.index → base ≤ b.index) :
    ((s.push (.morph m [])).updateNode slot
      (withShape (Binding.bound (.object s.next)))).Orderly base := by
  have hne : slot ≠ s.next := by
    intro h
    rw [h, node?_next] at hn
    cases hn
  set o : Object := .morph m [] with ho
  set s₁ := s.push o with hs₁
  set t := s₁.updateNode slot (withShape (Binding.bound (.object s.next))) with ht
  have hkind' : ∀ shape, (Binding.bound (.object s.next) shape).kind = shape.kind :=
    fun shape => by cases shape <;> rfl
  have hsound : t.Sound := by
    refine (hs.sound.push_morph hm).withShape slot hkind' fun shape hshape => ?_
    cases shape with
    | placeholder morph parent =>
      exact .inr ⟨m.kind, Has.mono ⟨s.next, o, rfl, object?_push_next s o, rfl⟩
        (s₁.keeps_updateNode slot fun n => hkind' n.shape)⟩
    | _ => exact hshape
  have hchildren : t.children = s.children := by rw [ht, children_withShape, hs₁, children_push s rfl]
  have hparent : t.parent? = s.parent? := by
    rw [ht, parent?_withShape (fun shape => by cases shape <;> rfl), hs₁, parent?_push s rfl]
  have hbound : t.bound = s.bound := by
    rw [ht, bound_withShape (fun shape => by cases shape <;> rfl), hs₁, bound_push s rfl]
  have howner' : t.owner? = s.owner? := by
    rw [ht, owner?_updateNode, hs₁, owner?_push_eq (o := o) s howner]
  have hbranches : ∀ x, t.branches x = if x = slot then m.branches else s.branches x := by
    intro x
    rw [branches, ht, node?_updateNode]
    simp only [morph?_updateNode]
    split_ifs with hx
    · obtain ⟨shape, children⟩ := n
      rw [hx, hs₁, node?_push, if_neg hne, hn]
      cases shape with
      | placeholder morph parent =>
        change (((s.push o).morph? s.next).map Morph.branches).getD [] = m.branches
        rw [morph?_push, if_pos rfl]
        rfl
      | _ => cases hkind
    · by_cases hx' : x = s.next
      · rw [hx', branches_next, hs₁, node?_push, if_pos rfl]
        rfl
      · exact branches_push_of_ne hs.sound o hx'
  have hmem : ∀ b, b ∈ m.branches.filterMap Value.objectId? → .object b ∈ m.branches := by
    intro b hb
    obtain ⟨v, hv, hb⟩ := List.mem_filterMap.1 hb
    cases v with
    | object i => cases hb; exact hv
    | _ => cases hb
  have hedge : ∀ a b, t.Edge a b →
      s.Edge a b ∨ a = slot ∧ b ∈ m.branches.filterMap Value.objectId? := by
    rintro a b (h | h)
    · rw [hchildren] at h
      exact .inl (.inl h)
    · rw [hbranches] at h
      split_ifs at h with ha
      · exact .inr ⟨ha, List.mem_filterMap.2 ⟨_, h, rfl⟩⟩
      · exact .inl (.inr h)
  refine ⟨hsound, hchildren ▸ hs.nodup, hchildren ▸ hs.unique,
    (hs.ranked.insert fun b hb => hreach b (hmem b hb)).mono hedge,
    hchildren ▸ hparent ▸ hs.parent, howner' ▸ hbound ▸ hs.owner, fun a b ha hab => ?_⟩
  rcases hedge a b hab with hab | ⟨rfl, hb⟩
  · exact hs.closed a b ha hab
  · exact hbase b (hmem b hb) ha

/-- A change of what an element holds besides its children and bound attributes. -/
theorem Orderly.withShape {f : Shape → Shape} (hsound : (s.updateNode id (withShape f)).Sound)
    (hmorph : ∀ shape, (f shape).morphId? = shape.morphId?)
    (hparent : ∀ shape, (f shape).parent? = shape.parent?)
    (hbound : ∀ shape, (f shape).bound = shape.bound) :
    (s.updateNode id (withShape f)).Orderly base :=
  hs.of_same_tree hsound (children_withShape s id f) (branches_withShape hmorph s id)
    (parent?_withShape hparent s id) (bound_withShape hbound s id) (owner?_updateNode s id _)

/-- **Setting** an attribute of an element. -/
theorem Orderly.setAttribute {entries : Entries}
    (he : Document.element? s element = some e) (hentries : e.attributes = .own entries)
    (name : Value) (text : String) :
    (s.updateNode e.id (Document.withShape
      (Document.withAttributes (.own (s.insert name (.str text) entries))))).Orderly base := by
  obtain ⟨⟨shape, children⟩, tag, ns, rfl, hn, rfl⟩ := Document.element?_eq_some_iff.1 he
  have hold : ∀ e ∈ entries, ∃ text, e.2 = Value.str text := by
    obtain ⟨⟨entries', hown, h⟩, -⟩ := (hs.sound.node e.id _ hn).shape
    rw [hentries] at hown
    cases hown
    exact h
  refine hs.withShape (hs.sound.withShape e.id (fun shape => ?_) fun shape hshape => ?_)
    (fun shape => by cases shape <;> rfl) (fun shape => by cases shape <;> rfl)
    (fun shape => by cases shape <;> rfl)
  · cases shape <;> rfl
  · cases shape with
    | element tag ns attributes bound modifiers =>
      exact ⟨⟨_, rfl, Assoc.snd_of_mem_insert (P := fun v => ∃ text, v = Value.str text)
        ⟨text, rfl⟩ hold⟩, hshape.2⟩
    | _ => exact hshape

/-- **Adding** a modifier to an element. -/
theorem Orderly.addModifier {items : List Value}
    (he : element? s element = some e) (hitems : e.modifiers = .own items) {c : HelperCall}
    (hc : c.Sound s.Data) :
    ((s.push (.morph (.element c) [])).updateNode e.id (Document.withShape
      (Document.withModifiers (.own (items ++ [.object s.next]))))).Orderly base := by
  obtain ⟨⟨shape, children⟩, tag, ns, rfl, hn, rfl⟩ := Document.element?_eq_some_iff.1 he
  have hold : ∀ v ∈ items, s.Has (.morph .element) v := by
    obtain ⟨-, -, items', hown, h⟩ := (hs.sound.node e.id _ hn).shape
    rw [hitems] at hown
    cases hown
    exact h
  set o : Object := .morph (.element c) [] with ho
  have hkeeps : s.Keeps (s.push o) := s.keeps_push o
  have hs₁ : (s.push o).Orderly base := hs.push (hs.sound.push_morph hc) rfl rfl rfl rfl rfl
  have hkind : ∀ shape, (withModifiers (.own (items ++ [.object s.next])) shape).kind =
      shape.kind := fun shape => by cases shape <;> rfl
  refine hs₁.withShape (hs₁.sound.withShape e.id hkind fun shape hshape => ?_)
    (fun shape => by cases shape <;> rfl) (fun shape => by cases shape <;> rfl)
    (fun shape => by cases shape <;> rfl)
  cases shape with
  | element tag ns attributes bound modifiers =>
    refine ⟨hshape.1, hshape.2.1, _, rfl, fun v hv => ?_⟩
    refine Has.mono ?_ ((s.push o).keeps_updateNode e.id fun n => hkind n.shape)
    rcases List.mem_append.1 hv with hv | hv
    · exact (hold v hv).mono hkeeps
    · rw [List.mem_singleton.1 hv]
      exact ⟨s.next, o, rfl, object?_push_next s o, rfl⟩
  | _ => exact hshape

/-- **Giving** a bound attribute its value. -/
theorem Orderly.setValue (id : ObjectId) (hv : s.Data v) :
    (s.updateMorph id (Morph.setValue v)).Orderly base := by
  have hkind : ∀ m, (Morph.setValue v m).kind = m.kind := fun m => by cases m <;> rfl
  have hnode : (s.updateMorph id (Morph.setValue v)).node? = s.node? :=
    funext (node?_updateMorph s id _)
  have hread : ∀ {α : Type} (π : Morph → Option α), (∀ m, π (Morph.setValue v m) = π m) → ∀ x,
      ((s.updateMorph id (Morph.setValue v)).morph? x).bind π = (s.morph? x).bind π := by
    intro α π hπ x
    rw [morph?_updateMorph]
    split_ifs
    · cases s.morph? x with
      | none => rfl
      | some m => exact hπ m
    · rfl
  refine hs.of_same_tree (hs.sound.updateMorph id hkind fun m hm => ?_) ?_ ?_ ?_ ?_ ?_
  · cases m with
    | «attribute» key value owner => exact ⟨hv.mono (s.keeps_updateMorph id hkind), hm.2⟩
    | _ => exact hm
  · funext x
    rw [children, children, hnode]
  · funext x
    have hbranches := hread (fun m => some m.branches) fun m => by cases m <;> rfl
    rw [branches, branches, hnode]
    simp only [Option.map_eq_bind]
    simp only [Function.comp_def, hbranches]
  · funext x
    rw [parent?, parent?, hnode]
  · funext x
    rw [bound, bound, hnode]
  · exact funext (hread Morph.owner? fun m => by cases m <;> rfl)

end Changes

end Store

end TemplateRecovery
