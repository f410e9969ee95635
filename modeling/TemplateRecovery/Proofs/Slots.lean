import TemplateRecovery.Proofs.Exchange

/-!
# Opening slots in any order

A slot for a single child can be opened at several positions of a tree one after the other. Every path
is resolved in the tree that the earlier slots have left; as long as no position lies on the way to
another one, the order does not matter.

* `Store.nodeAt?` is the node that a path of indices leads to, `Store.NodeTree` says that the nodes form
  a tree.
* `Document.Spot` is a position, `Document.openAt` opens a slot there.
* `Document.Opened` says what has become of a store in which slots were opened. It is told by the
  positions alone and not by their order.
* `Document.openAt_opened` opens one slot, `Document.mapM_openAt_opened` all of them.
-/

namespace TemplateRecovery

open Store Container Act

variable {path : List Nat} {k : Spot} {done : List Spot}

namespace Store

/-! ### Trees of nodes -/

/-- The children of a node, and the object that keeps them: the node itself, or a list that can be held
elsewhere too. -/
def children? (s : Store) (id : ObjectId) : Option (ObjectId × List Value) :=
  match s.node? id with
  | some ⟨_, .own items⟩ => some (id, items)
  | some ⟨_, .shared (.object keeper)⟩ =>
    match s.object? keeper with
    | some (.list items) => some (keeper, items)
    | _ => none
  | _ => none

def childOf? (items : List Value) (i : Nat) : Option ObjectId :=
  match items[i]? with
  | some (.object id) => some id
  | _ => none

def child? (s : Store) (id : ObjectId) (i : Nat) : Option ObjectId :=
  (s.children? id).bind fun found => childOf? found.2 i

def nodeAt? (s : Store) (root : ObjectId) (path : List Nat) : Option ObjectId :=
  path.foldlM s.child? root

/-- **The nodes below a root form a tree.** All children are nodes, and no node is shared: one path leads
to each of them. Lists are not longer than lists can be. -/
structure NodeTree (s : Store) (root : ObjectId) : Prop where
  children : ∀ path id, s.nodeAt? root path = some id → ∃ keeper items,
    s.children? id = some (keeper, items) ∧ (items.length : Int) ≤ indexLimit ∧
      ∀ v ∈ items, ∃ c, v = .object c
  unique : ∀ path path' id, s.nodeAt? root path = some id → s.nodeAt? root path' = some id →
    path = path'

variable {s t : Store} {root id keeper : ObjectId} {items : List Value} {i : Nat}

theorem nodeAt?_concat (s : Store) (root : ObjectId) (path : List Nat) (i : Nat) :
    s.nodeAt? root (path ++ [i]) = (s.nodeAt? root path).bind fun id => s.child? id i := by
  rw [nodeAt?, List.foldlM_append, nodeAt?]
  refine congrArg _ (funext fun id => ?_)
  rw [List.foldlM_cons]
  exact bind_pure _

section Children

variable (h : s.children? id = some (keeper, items))

include h

theorem child?_of_children? (i : Nat) : s.child? id i = childOf? items i := by
  rw [child?, h]
  rfl

theorem children?_cases :
    (keeper = id ∧ ∃ shape added, s.object? id = some (.node ⟨shape, .own items⟩ added)) ∨
      s.object? keeper = some (.list items) ∧
        ∃ shape added, s.object? id = some (.node ⟨shape, .shared (.object keeper)⟩ added) := by
  rw [children?, node?] at h
  cases ho : s.object? id with
  | none => rw [ho] at h; cases h
  | some o =>
    rw [ho] at h
    cases o with
    | node n added =>
      obtain ⟨shape, children⟩ := n
      cases children with
      | own own =>
        cases h
        exact .inl ⟨rfl, shape, added, rfl⟩
      | shared v =>
        cases v with
        | object l =>
          cases hl : s.object? l with
          | none => simp [Object.node?, hl] at h
          | some p =>
            cases p with
            | list found =>
              simp only [Option.bind_some, Object.node?, hl, Option.some.injEq, Prod.mk.injEq] at h
              obtain ⟨rfl, rfl⟩ := h
              exact .inr ⟨hl, shape, added, rfl⟩
            | _ => simp [Object.node?, hl] at h
        | _ => cases h
    | _ => cases h

omit h in
theorem children?_of_own {shape : Shape} {added : Fields}
    (h : s.object? id = some (.node ⟨shape, .own items⟩ added)) : s.children? id = some (id, items) := by
  simp [children?, node?, h, Object.node?]

omit h in
theorem children?_of_shared {shape : Shape} {added : Fields}
    (h : s.object? id = some (.node ⟨shape, .shared (.object keeper)⟩ added))
    (hkeeper : s.object? keeper = some (.list items)) : s.children? id = some (keeper, items) := by
  simp [children?, node?, h, Object.node?, hkeeper]

theorem exists_node_of_children? : ∃ n, s.node? id = some n := by
  obtain ⟨-, shape, added, ho⟩ | ⟨-, shape, added, ho⟩ := children?_cases h
  · exact ⟨⟨shape, .own items⟩, by simp [node?, ho, Object.node?]⟩
  · exact ⟨⟨shape, .shared (.object keeper)⟩, by simp [node?, ho, Object.node?]⟩

theorem items_eq_of_children? {id' : ObjectId} {items' : List Value} (h' : s.children? id' = some (keeper, items')) :
    items' = items := by
  obtain ⟨rfl, shape, added, ho⟩ | ⟨ho, -⟩ := children?_cases h <;>
    obtain ⟨rfl, shape', added', ho'⟩ | ⟨ho', -⟩ := children?_cases h' <;>
    rw [ho] at ho' <;> cases ho' <;> rfl

end Children

/-- A child of a node of a tree stands where its one path says. -/
theorem NodeTree.eq_of_child (h : s.NodeTree root) {path' : List Nat} {id' : ObjectId}
    {items' : List Value} (hid : s.nodeAt? root path = some id)
    (hid' : s.nodeAt? root path' = some id') (hchildren : s.children? id = some (keeper, items))
    (hchildren' : s.children? id' = some (keeper, items')) (hi : i < items.length) :
    path = path' := by
  obtain rfl := items_eq_of_children? hchildren hchildren'
  obtain ⟨keeper', items', hsome, -, hnodes⟩ := h.children path id hid
  rw [hchildren] at hsome
  cases hsome
  obtain ⟨c, hc⟩ := hnodes _ (List.getElem_mem hi)
  have hchild : childOf? items' i = some c := by
    rw [childOf?, List.getElem?_eq_getElem hi, hc]
  have hpath : s.nodeAt? root (path ++ [i]) = some c := by
    rw [nodeAt?_concat, hid, Option.bind_some, child?_of_children? hchildren, hchild]
  have hpath' : s.nodeAt? root (path' ++ [i]) = some c := by
    rw [nodeAt?_concat, hid', Option.bind_some, child?_of_children? hchildren', hchild]
  exact List.append_cancel_right (h.unique _ _ c hpath hpath')

end Store

/-- An object whose items are changed one by one: the own children of a node, or the items of a list. -/
def Object.mapItems (f : Nat → Value → Value) : Object → Object
  | .node ⟨shape, .own items⟩ added => .node ⟨shape, .own (items.mapIdx f)⟩ added
  | .list items => .list (items.mapIdx f)
  | o => o

theorem Object.mapItems_mapItems (f g : Nat → Value → Value) (o : Object) :
    (o.mapItems f).mapItems g = o.mapItems fun i v => g i (f i v) := by
  cases o with
  | list items => simp [mapItems, Function.comp_def]
  | node n added =>
    obtain ⟨shape, children⟩ := n
    cases children with
    | own items => simp [mapItems, Function.comp_def]
    | shared v => rfl
  | _ => rfl

theorem Object.mapItems_id (o : Object) : (o.mapItems fun _ v => v) = o := by
  have hid (items : List Value) : items.mapIdx (fun _ v => v) = items := by
    refine List.ext_getElem? fun i => ?_
    simp
  cases o with
  | list items => rw [mapItems, hid]
  | node n added =>
    obtain ⟨shape, children⟩ := n
    cases children with
    | own items => rw [mapItems, hid]
    | shared v => rfl
  | _ => rfl

/-- What becomes of the children of a node when the items of their keeper are changed. -/
theorem Store.children?_mapItems {s t : Store} {id keeper : ObjectId} {items : List Value}
    (h : s.children? id = some (keeper, items)) {f g : Nat → Value → Value}
    (hid : ∀ o, s.object? id = some o → t.object? id = some (o.mapItems g))
    (hkeeper : ∀ o, s.object? keeper = some o → t.object? keeper = some (o.mapItems f)) :
    t.children? id = some (keeper, items.mapIdx f) := by
  obtain ⟨rfl, shape, added, ho⟩ | ⟨hlist, shape, added, ho⟩ := children?_cases h
  · exact children?_of_own (hkeeper _ ho)
  · exact children?_of_shared (hid _ ho) (hkeeper _ hlist)

namespace Document

variable {s t : Store} {root id keeper : ObjectId} {items : List Value} {i : Nat}

/-! ### Reading and replacing one child -/

theorem length_of_children? (h : s.children? id = some (keeper, items)) {n : Node}
    (hn : s.node? id = some n) : n.children.length s = .ok items.length s := by
  obtain ⟨-, shape, added, ho⟩ | ⟨hlist, shape, added, ho⟩ := children?_cases h
  · rw [node?, ho] at hn
    cases hn
    rfl
  · rw [node?, ho] at hn
    cases hn
    change length (.object keeper) s = _
    rw [length, bind_store, asObject?_of_object? hlist]
    rfl

theorem childAtIndex_of_children? (h : s.children? id = some (keeper, items))
    (hlimit : (items.length : Int) ≤ indexLimit) {c : ObjectId}
    (hc : childOf? items i = some c) :
    childAtIndex (.object id) (.int i) s = .ok (.object c) s := by
  obtain ⟨n, hn⟩ := exists_node_of_children? h
  have hitem : items[i]? = some (.object c) := by
    unfold childOf? at hc
    split at hc
    · next found => rw [found, Option.some.inj hc]
    · cases hc
  have hi : i < items.length := (List.getElem?_eq_some_iff.1 hitem).1
  have hposition : childPosition? (.int i) items.length = some i := by
    simp [childPosition?, Value.index?, hi]
  refine (bind_of_ok (expectNode_ok _ hn)).trans
    ((bind_of_ok (length_of_children? h hn)).trans ?_)
  rw [hposition]
  obtain ⟨-, shape, added, ho⟩ | ⟨hlist, shape, added, ho⟩ := children?_cases h
  · rw [node?, ho] at hn
    cases hn
    change EStateM.Result.ok (items[i]?.getD .null) s = _
    rw [hitem]
    rfl
  · rw [node?, ho] at hn
    cases hn
    have harray : s.array? (.object keeper) = some items := by
      rw [array?, asObject?_of_object? hlist]
    change item (.object keeper) (.int i) s = _
    rw [Opcode.item_of_position harray hi, if_neg (by omega), hitem]
    rfl

theorem spliced_eq_mapIdx (v : Value) (hi : i < items.length) :
    spliced items i i v = items.mapIdx fun j w => if j = i then v else w := by
  have hlength : (items.take i).length = i := by
    rw [List.length_take]
    omega
  refine List.ext_getElem? fun j => ?_
  rw [spliced, List.getElem?_mapIdx, List.getElem?_append, hlength]
  rcases lt_trichotomy j i with hj | rfl | hj
  · have hne : j ≠ i := by omega
    rw [if_pos hj]
    simp [hj, hne]
  · rw [if_neg (lt_irrefl _)]
    simp [List.getElem?_eq_getElem hi]
  · obtain ⟨k, rfl⟩ : ∃ k, j = i + (k + 1) := ⟨j - i - 1, by omega⟩
    have hsub : i + (k + 1) - i = k + 1 := by omega
    have hadd : i + 1 + k = i + (k + 1) := by omega
    rw [if_neg (by omega), hsub, List.getElem?_cons_succ, List.getElem?_drop, hadd]
    simp

/-- **Replacing one child** makes a placeholder and changes one item of the keeper. -/
theorem createMorphAt_of_children? (h : s.children? id = some (keeper, items)) (hi : i < items.length) :
    ∃ t, createMorphAt (.object id) (.int i) (.int i) s = .ok (.object s.next) t ∧
      t.objects.size = s.objects.size + 1 ∧
      t.object? s.next = some (.node ⟨.placeholder .null (.object id), .own []⟩ []) ∧
      ∀ x o, s.object? x = some o → t.object? x = some
        (if x = keeper then o.mapItems fun j w => if j = i then .object s.next else w else o) := by
  obtain ⟨n, hn⟩ := exists_node_of_children? h
  have hrange : range? (.int i) (.int i) items.length = some (i, i) := by
    simp [range?, Value.index?, hi]
  -- the store with the placeholder, before it takes its place
  generalize hu : s.push (.node ⟨.placeholder .null (.object id), .own []⟩ []) = u
  have hold {x : ObjectId} {o : Object} (ho : s.object? x = some o) : u.object? x = some o := by
    rw [← hu]
    exact object?_push_of_some ho _
  have hsplice : ∃ f, n.children.splice i i (.object s.next) (keepChildren id) u =
      .ok () (u.update keeper f) ∧ ∀ o, s.object? keeper = some o →
        f o = o.mapItems fun j w => if j = i then .object s.next else w := by
    obtain ⟨rfl, shape, added, ho⟩ | ⟨hlist, shape, added, ho⟩ := children?_cases h
    · rw [node?, ho] at hn
      cases hn
      refine ⟨_, modifyNode_apply keeper _ u, fun o ho' => ?_⟩
      rw [ho] at ho'
      cases ho'
      rw [Object.mapItems, ← spliced_eq_mapIdx _ hi]
      rfl
    · rw [node?, ho] at hn
      cases hn
      refine ⟨withSplice i i (.object s.next), ?_, fun o ho' => ?_⟩
      · change splice (.object keeper) i i (.object s.next) u = _
        rw [splice, bind_store, asObject?_of_object? (hold hlist)]
        rfl
      · rw [hlist] at ho'
        cases ho'
        rw [Object.mapItems, ← spliced_eq_mapIdx _ hi]
        rfl
  obtain ⟨f, hsplice, hf⟩ := hsplice
  have hrun : createMorphAt (.object id) (.int i) (.int i) s =
      .ok (.object s.next) ((u.update keeper f).noted (.slot i i n.shape.kind)) := by
    refine (bind_of_ok (expectNode_ok _ hn)).trans
      ((bind_of_ok (length_of_children? h hn)).trans ?_)
    rw [hrange]
    subst hu
    exact (bind_of_ok (new_apply _ s)).trans ((bind_of_ok hsplice).trans rfl)
  have hlt : keeper.index < s.objects.size := by
    obtain ⟨rfl, shape, added, ho⟩ | ⟨ho, -⟩ := children?_cases h <;>
      exact index_lt_of_object? ho
  have hobject (x : ObjectId) : ((u.update keeper f).noted (.slot i i n.shape.kind)).object? x =
      if x = keeper then (u.object? x).map f else u.object? x :=
    object?_update u keeper f x
  refine ⟨_, hrun, ?_, ?_, fun x o ho => ?_⟩
  · change (u.update keeper f).objects.size = _
    rw [size_update, ← hu, size_push]
  · rw [hobject, if_neg, ← hu, object?_push, if_pos rfl]
    rintro rfl
    exact lt_irrefl _ hlt
  · rw [hobject, hold ho]
    split_ifs with hx
    · subst hx
      rw [Option.map_some, hf o ho]
    · rfl

/-! ### Spots -/

/-- A position for a slot: the path to a node, and the index of one of its children. -/
structure Spot where
  path : List Nat
  index : Nat
  deriving DecidableEq

/-- The path to the child that stands at a spot. -/
def Spot.position (k : Spot) : List Nat := k.path ++ [k.index]

/-- Neither of two spots lies on the way to the other. -/
def Spot.Apart (k k' : Spot) : Prop := ¬ k.position <+: k'.position ∧ ¬ k'.position <+: k.position

instance : DecidableRel Spot.Apart := fun k k' =>
  inferInstanceAs (Decidable (¬ k.position <+: k'.position ∧ ¬ k'.position <+: k.position))

instance : Std.Symm Spot.Apart := ⟨fun _ _ h => ⟨h.2, h.1⟩⟩

/-- A spot that a path leads to is the place of a child. -/
theorem exists_children_of_position (htree : s.NodeTree root)
    (hk : (s.nodeAt? root k.position).isSome) : ∃ id keeper items, s.nodeAt? root k.path = some id ∧
      s.children? id = some (keeper, items) ∧ k.index < items.length := by
  obtain ⟨c, hc⟩ := Option.isSome_iff_exists.1 hk
  rw [Spot.position, nodeAt?_concat] at hc
  obtain ⟨id, hid, hchild⟩ := Option.bind_eq_some_iff.1 hc
  obtain ⟨keeper, items, hchildren, -⟩ := htree.children k.path id hid
  refine ⟨id, keeper, items, hid, hchildren, ?_⟩
  rw [child?_of_children? hchildren] at hchild
  by_contra hi
  simp [childOf?, List.getElem?_eq_none (Nat.le_of_not_lt hi)] at hchild

/-- Opens a slot at a spot, whose path is given as a new list. -/
def openAt (root : Value) (k : Spot) : Act Value := do
  let path ← new (.list (k.path.map fun i : Nat => .int i))
  let parent ← childAt root path
  createMorphAt parent (.int k.index) (.int k.index)

/-- The children at the end of the path of a spot are kept by an object. -/
def Spot.KeptBy (s : Store) (root : ObjectId) (k : Spot) (keeper : ObjectId) : Prop :=
  ∃ id items, s.nodeAt? root k.path = some id ∧ s.children? id = some (keeper, items)

/-- **A store in which slots were opened at some spots.** For each of them there is a new placeholder,
which knows its parent. In the list that the spot belongs to, the placeholder stands for the item; all
other items and all other objects are as they were. -/
structure Opened (s t : Store) (root : ObjectId) (spots : List Spot) (slot : Spot → ObjectId) :
    Prop where
  fresh : ∀ k ∈ spots, s.objects.size ≤ (slot k).index
  distinct : ∀ k ∈ spots, ∀ k' ∈ spots, slot k = slot k' → k = k'
  placeholder : ∀ k ∈ spots, ∀ id, s.nodeAt? root k.path = some id →
    t.object? (slot k) = some (.node ⟨.placeholder .null (.object id), .own []⟩ [])
  object : ∀ x o, s.object? x = some o → ∃ f, t.object? x = some (o.mapItems f) ∧
    (∀ k ∈ spots, k.KeptBy s root x → ∀ v, f k.index v = .object (slot k)) ∧
    ∀ i v, (∀ k ∈ spots, k.KeptBy s root x → k.index ≠ i) → f i v = v

variable {spots : List Spot} {slot : Spot → ObjectId}

theorem opened_nil (s : Store) (root : ObjectId) (slot : Spot → ObjectId) : Opened s s root [] slot where
  fresh _ hk := absurd hk List.not_mem_nil
  distinct _ hk := absurd hk List.not_mem_nil
  placeholder _ hk := absurd hk List.not_mem_nil
  object x o ho := by
    refine ⟨fun _ v => v, ?_, fun k hk => absurd hk List.not_mem_nil, fun _ _ _ => rfl⟩
    rw [ho, Object.mapItems_id]

theorem Opened.later {u : Store} (h : Opened s t root spots slot)
    (hu : ∀ x o, t.object? x = some o → u.object? x = some o) : Opened s u root spots slot where
  fresh := h.fresh
  distinct := h.distinct
  placeholder k hk id hid := hu _ _ (h.placeholder k hk id hid)
  object x o ho := by
    obtain ⟨f, hf, hrest⟩ := h.object x o ho
    exact ⟨f, hu _ _ hf, hrest⟩

theorem Opened.size_le (h : Opened s t root spots slot) : s.objects.size ≤ t.objects.size := by
  by_contra hlt
  have ho : s.object? t.next = some s.objects[t.objects.size] :=
    Array.getElem?_eq_getElem (Nat.lt_of_not_le hlt)
  obtain ⟨f, hf, -⟩ := h.object _ _ ho
  exact lt_irrefl _ (index_lt_of_object? hf)

/-- Only the spots count, not their order. -/
theorem Opened.perm {order : List Spot} (h : Opened s t root order slot) (hperm : order.Perm spots) :
    Opened s t root spots slot where
  fresh k hk := h.fresh k (hperm.mem_iff.2 hk)
  distinct k hk k' hk' := h.distinct k (hperm.mem_iff.2 hk) k' (hperm.mem_iff.2 hk')
  placeholder k hk := h.placeholder k (hperm.mem_iff.2 hk)
  object x o ho := by
    obtain ⟨f, hf, hslot, hother⟩ := h.object x o ho
    refine ⟨f, hf, fun k hk => hslot k (hperm.mem_iff.2 hk), fun i v hne => ?_⟩
    exact hother i v fun k hk => hne k (hperm.mem_iff.1 hk)

/-- The children of a node after slots were opened. -/
theorem Opened.children? (h : Opened s t root spots slot) (hc : s.children? id = some (keeper, items)) :
    ∃ f, t.children? id = some (keeper, items.mapIdx f) ∧
      (∀ k ∈ spots, k.KeptBy s root keeper → ∀ v, f k.index v = .object (slot k)) ∧
      ∀ i v, (∀ k ∈ spots, k.KeptBy s root keeper → k.index ≠ i) → f i v = v := by
  obtain ⟨o, ho⟩ : ∃ o, s.object? id = some o := by
    obtain ⟨-, shape, added, ho⟩ | ⟨-, shape, added, ho⟩ := children?_cases hc <;> exact ⟨_, ho⟩
  obtain ⟨p, hp⟩ : ∃ p, s.object? keeper = some p := by
    obtain ⟨rfl, shape, added, hp⟩ | ⟨hp, -⟩ := children?_cases hc <;> exact ⟨_, hp⟩
  obtain ⟨g, hg, -⟩ := h.object id o ho
  obtain ⟨f, hf, hrest⟩ := h.object keeper p hp
  refine ⟨f, children?_mapItems (g := g) hc (fun o' ho' => ?_) (fun p' hp' => ?_), hrest⟩
  · rw [ho] at ho'
    cases ho'
    exact hg
  · rw [hp] at hp'
    cases hp'
    exact hf

theorem childOf?_mapIdx_of_eq {f : Nat → Value → Value} (hf : ∀ v, f i v = v) :
    childOf? (items.mapIdx f) i = childOf? items i := by
  rw [childOf?, childOf?, List.getElem?_mapIdx]
  cases items[i]? with
  | none => rfl
  | some v => rw [Option.map_some, hf]

section Spots

variable (htree : s.NodeTree root)

include htree

theorem Opened.child?_other (h : Opened s t root spots slot)
    (hid : s.nodeAt? root path = some id) (hne : ∀ k ∈ spots, k.position ≠ path ++ [i]) :
    t.child? id i = s.child? id i := by
  obtain ⟨keeper, items, hc, -⟩ := htree.children path id hid
  obtain ⟨f, hf, -, hother⟩ := h.children? hc
  rw [child?_of_children? hf, child?_of_children? hc]
  by_cases hi : i < items.length
  · refine childOf?_mapIdx_of_eq fun v => hother i v ?_
    rintro k hk ⟨id', items', hid', hc'⟩ rfl
    -- the spot would be this one, since the tree shares no node
    have hpath := htree.eq_of_child hid hid' hc hc' hi
    exact hne k hk (by rw [Spot.position, hpath])
  · simp [childOf?, List.getElem?_eq_none (Nat.le_of_not_lt hi)]

omit htree in
theorem Opened.child?_slot (h : Opened s t root spots slot) (hk : k ∈ spots)
    (hid : s.nodeAt? root k.path = some id) (hc : s.children? id = some (keeper, items))
    (hi : k.index < items.length) : t.child? id k.index = some (slot k) := by
  obtain ⟨f, hf, hslot, -⟩ := h.children? hc
  rw [child?_of_children? hf, childOf?, List.getElem?_mapIdx, List.getElem?_eq_getElem hi,
    Option.map_some, hslot k hk ⟨id, items, hid, hc⟩]

/-- **A path that runs through no spot leads where it led.** -/
theorem Opened.nodeAt?_other (h : Opened s t root spots slot)
    (hpath : ∀ k ∈ spots, ¬ k.position <+: path) : t.nodeAt? root path = s.nodeAt? root path := by
  induction path using List.reverseRecOn with
  | nil => rfl
  | append_singleton path i ih =>
    rw [nodeAt?_concat, nodeAt?_concat,
      ih fun k hk hp => hpath k hk (hp.trans (List.prefix_append _ _))]
    cases hid : s.nodeAt? root path with
    | none => rfl
    | some id =>
      refine h.child?_other htree hid fun k hk heq => hpath k hk ?_
      rw [heq]

/-- A walk along a path that comes to a spot at its end only. -/
theorem Opened.foldlM_childAtIndex (h : Opened s t root spots slot)
    (hpath : ∀ k ∈ spots, k.position <+: path → k.position = path)
    (hid : t.nodeAt? root path = some id) :
    (path.map fun i : Nat => Value.int i).foldlM childAtIndex (.object root) t = .ok (.object id) t := by
  induction path using List.reverseRecOn generalizing id with
  | nil =>
    cases hid
    rfl
  | append_singleton path i ih =>
    -- the way up to here runs through no spot
    have hway (k : Spot) (hk : k ∈ spots) : ¬ k.position <+: path := by
      intro hpre
      have hlength := hpre.length_le
      rw [hpath k hk (hpre.trans (List.prefix_append _ _)), List.length_append] at hlength
      simp at hlength
    rw [nodeAt?_concat] at hid
    obtain ⟨parent, hparent, hchild⟩ := Option.bind_eq_some_iff.1 hid
    rw [List.map_append, List.foldlM_append]
    refine (bind_of_ok (ih (fun k hk hpre => absurd hpre (hway k hk)) hparent)).trans ?_
    rw [h.nodeAt?_other htree hway] at hparent
    obtain ⟨keeper, items, hc, hlimit, -⟩ := htree.children path parent hparent
    obtain ⟨f, hf, -⟩ := h.children? hc
    rw [child?_of_children? hf] at hchild
    rw [← List.length_mapIdx (f := f)] at hlimit
    exact bind_of_ok (childAtIndex_of_children? hf hlimit hchild)

omit htree in
theorem childAt_of_list {list : ObjectId} {steps : List Value}
    (h : t.object? list = some (.list steps)) (root : Value) :
    childAt root (.object list) t = steps.foldlM childAtIndex root t := by
  refine bind_of_ok ?_
  rw [items, bind_store, asObject?_of_object? h]
  rfl

/-- One more placeholder, in the list that its spot belongs to. -/
theorem Opened.cons (h : Opened s t root done slot)
    (hid : s.nodeAt? root k.path = some id) (hc : s.children? id = some (keeper, items))
    (hi : k.index < items.length) (hdone : ∀ k' ∈ done, (s.nodeAt? root k'.position).isSome)
    (hapart : ∀ k' ∈ done, k.Apart k') {u : Store}
    (hplaceholder : u.object? t.next = some (.node ⟨.placeholder .null (.object id), .own []⟩ []))
    (hobject : ∀ x o, t.object? x = some o → u.object? x = some
      (if x = keeper then o.mapItems fun j w => if j = k.index then .object t.next else w else o)) :
    Opened s u root (k :: done) (Function.update slot k t.next) := by
  have hne (k' : Spot) (hk' : k' ∈ done) : k' ≠ k := by
    rintro rfl
    exact (hapart k' hk').2 (List.prefix_refl _)
  have hslot (k' : Spot) (hk' : k' ∈ done) : Function.update slot k t.next k' = slot k' :=
    Function.update_of_ne (hne k' hk') _ _
  -- the earlier placeholders are objects already
  have hmade (k' : Spot) (hk' : k' ∈ done) : ∃ id', s.nodeAt? root k'.path = some id' ∧
      t.object? (slot k') = some (.node ⟨.placeholder .null (.object id'), .own []⟩ []) := by
    obtain ⟨id', -, -, hid', -⟩ := exists_children_of_position htree (hdone k' hk')
    exact ⟨id', hid', h.placeholder k' hk' id' hid'⟩
  have hnew (k' : Spot) (hk' : k' ∈ done) : slot k' ≠ t.next := by
    intro heq
    obtain ⟨id', -, ho⟩ := hmade k' hk'
    rw [heq] at ho
    exact lt_irrefl _ (index_lt_of_object? ho)
  have hkept (x : ObjectId) (hx : k.KeptBy s root x) : x = keeper := by
    obtain ⟨id', items', hid', hc'⟩ := hx
    rw [hid] at hid'
    cases hid'
    rw [hc] at hc'
    cases hc'
    rfl
  refine ⟨?_, ?_, ?_, ?_⟩
  · intro k' hk'
    obtain rfl | hk' := List.mem_cons.1 hk'
    · rw [Function.update_self]
      exact h.size_le
    · rw [hslot k' hk']
      exact h.fresh k' hk'
  · intro k₁ hk₁ k₂ hk₂ heq
    obtain rfl | hin₁ := List.mem_cons.1 hk₁ <;> obtain rfl | hin₂ := List.mem_cons.1 hk₂
    · rfl
    · rw [Function.update_self, hslot k₂ hin₂] at heq
      exact absurd heq.symm (hnew k₂ hin₂)
    · rw [Function.update_self, hslot k₁ hin₁] at heq
      exact absurd heq (hnew k₁ hin₁)
    · rw [hslot k₁ hin₁, hslot k₂ hin₂] at heq
      exact h.distinct k₁ hin₁ k₂ hin₂ heq
  · intro k' hk' id' hid'
    obtain rfl | hk' := List.mem_cons.1 hk'
    · rw [hid] at hid'
      cases hid'
      rw [Function.update_self]
      exact hplaceholder
    · have ho := h.placeholder k' hk' id' hid'
      rw [hslot k' hk', hobject _ _ ho]
      split_ifs <;> rfl
  · intro x o ho
    obtain ⟨f, hf, hspots, hother⟩ := h.object x o ho
    have hx := hobject x _ hf
    by_cases hkeeper : x = keeper
    · subst hkeeper
      rw [if_pos rfl, Object.mapItems_mapItems] at hx
      refine ⟨_, hx, fun k' hk' hkept' v => ?_, fun i v hne' => ?_⟩
      · obtain rfl | hk' := List.mem_cons.1 hk'
        · rw [Function.update_self, if_pos rfl]
        · -- two spots with one index in one list would be one spot
          have hindex : k'.index ≠ k.index := by
            intro hindex
            obtain ⟨id', items', hid', hc'⟩ := hkept'
            refine (hapart k' hk').2 ?_
            rw [Spot.position, Spot.position, hindex, htree.eq_of_child hid hid' hc hc' hi]
          rw [if_neg hindex, hslot k' hk', hspots k' hk' hkept' v]
      · rw [if_neg, hother i v fun k' hk' => hne' k' (List.mem_cons_of_mem _ hk')]
        exact (hne' k List.mem_cons_self ⟨id, items, hid, hc⟩).symm
    · rw [if_neg hkeeper] at hx
      refine ⟨f, hx, fun k' hk' hkept' v => ?_, fun i v hne' => ?_⟩
      · obtain rfl | hk' := List.mem_cons.1 hk'
        · exact absurd (hkept x hkept') hkeeper
        · rw [hslot k' hk', hspots k' hk' hkept' v]
      · exact hother i v fun k' hk' => hne' k' (List.mem_cons_of_mem _ hk')

/-- **One more slot.** -/
theorem openAt_opened (h : Opened s t root done slot) (hk : (s.nodeAt? root k.position).isSome)
    (hdone : ∀ k' ∈ done, (s.nodeAt? root k'.position).isSome) (hapart : ∀ k' ∈ done, k.Apart k') :
    ∃ x u, openAt (.object root) k t = .ok (.object x) u ∧
      Opened s u root (k :: done) (Function.update slot k x) := by
  obtain ⟨id, keeper, items, hid, hc, hi⟩ := exists_children_of_position htree hk
  -- the path is a new object
  generalize ht₁ : t.push (.list (k.path.map fun i : Nat => .int i)) = t₁
  have hlist : t₁.object? t.next = some (.list (k.path.map fun i : Nat => .int i)) := by
    rw [← ht₁, object?_push, if_pos rfl]
  have h₁ : Opened s t₁ root done slot := by
    refine h.later fun x o ho => ?_
    rw [← ht₁]
    exact object?_push_of_some ho _
  -- it still leads to the parent
  have hway (k' : Spot) (hk' : k' ∈ done) : ¬ k'.position <+: k.path := fun hp =>
    (hapart k' hk').2 (hp.trans (List.prefix_append _ _))
  have hparent : t₁.nodeAt? root k.path = some id := by rw [h₁.nodeAt?_other htree hway, hid]
  have hchildAt : childAt (.object root) (.object t.next) t₁ = .ok (.object id) t₁ := by
    rw [childAt_of_list hlist]
    exact h₁.foldlM_childAtIndex htree (fun k' hk' hp => absurd hp (hway k' hk')) hparent
  obtain ⟨f, hf, -⟩ := h₁.children? hc
  obtain ⟨u, hu, -, hplaceholder, hobject⟩ :=
    createMorphAt_of_children? hf (i := k.index) (by rwa [List.length_mapIdx])
  have hrun : openAt (.object root) k t = .ok (.object t₁.next) u := by
    subst ht₁
    exact (bind_of_ok (new_apply _ t)).trans ((bind_of_ok hchildAt).trans hu)
  exact ⟨t₁.next, u, hrun, h₁.cons htree hid hc hi hdone hapart hplaceholder hobject⟩

/-- **All slots, one after the other.** -/
theorem mapM_openAt_opened (order : List Spot) (h : Opened s t root done slot)
    (hvalid : ∀ k ∈ order ++ done, (s.nodeAt? root k.position).isSome)
    (hapart : (order ++ done).Pairwise Spot.Apart) :
    ∃ slot' u, order.mapM (openAt (.object root)) t = .ok (order.map fun k => .object (slot' k)) u ∧
      Opened s u root (order ++ done) slot' ∧ ∀ k ∈ done, slot' k = slot k := by
  induction order generalizing t done slot with
  | nil => exact ⟨slot, t, rfl, h, fun _ _ => rfl⟩
  | cons k order ih =>
    rw [List.cons_append, List.pairwise_cons] at hapart
    obtain ⟨x, t₁, hx, h₁⟩ := openAt_opened htree h (hvalid k List.mem_cons_self)
      (fun k' hk' => hvalid k' (List.mem_append_right _ hk'))
      fun k' hk' => hapart.1 k' (List.mem_append_right _ hk')
    have hmiddle : (order ++ k :: done).Perm (k :: (order ++ done)) := List.perm_middle
    obtain ⟨slot', u, hrest, hu, hkept⟩ := ih h₁
      (fun k' hk' => hvalid k' (hmiddle.mem_iff.1 hk'))
      (hmiddle.symm.pairwise (List.pairwise_cons.2 hapart) symm)
    have hself : slot' k = x := by rw [hkept k List.mem_cons_self, Function.update_self]
    refine ⟨slot', u, ?_, hu.perm hmiddle, fun k' hk' => ?_⟩
    · rw [List.mapM_cons]
      refine (bind_of_ok hx).trans ((bind_of_ok hrest).trans ?_)
      rw [List.map_cons, hself]
      rfl
    · rw [hkept k' (List.mem_cons_of_mem _ hk'), Function.update_of_ne]
      rintro rfl
      exact (hapart.1 k' (List.mem_append_right _ hk')).1 (List.prefix_refl _)

/-- What a path leads to, in a store in which slots were opened: at a spot to its placeholder, and
elsewhere, if it runs through no spot, to the node that it led to. -/
theorem Opened.nodeAt?_position (h : Opened s t root spots slot)
    (hvalid : ∀ k ∈ spots, (s.nodeAt? root k.position).isSome) (hapart : spots.Pairwise Spot.Apart)
    (hk : k ∈ spots) : t.nodeAt? root k.position = some (slot k) := by
  obtain ⟨id, keeper, items, hid, hc, hi⟩ := exists_children_of_position htree (hvalid k hk)
  have hway (k' : Spot) (hk' : k' ∈ spots) : ¬ k'.position <+: k.path := by
    intro hpre
    have hposition : k'.position <+: k.position := hpre.trans (List.prefix_append _ _)
    by_cases heq : k' = k
    · subst heq
      have hlength := hpre.length_le
      rw [Spot.position, List.length_append, List.length_singleton] at hlength
      omega
    · exact (hapart.forall hk' hk heq).1 hposition
  rw [Spot.position, nodeAt?_concat, h.nodeAt?_other htree hway, hid, Option.bind_some,
    h.child?_slot hk hid hc hi]

end Spots

/-- Two stores differ only in which objects the placeholders of some spots are: every object of the
store that they come from has the same items in both, but for a placeholder in place of another. -/
def SameButSlots (s t t' : Store) (spots : List Spot) (slot slot' : Spot → ObjectId) : Prop :=
  ∀ x o, s.object? x = some o → ∃ f f', t.object? x = some (o.mapItems f) ∧
    t'.object? x = some (o.mapItems f') ∧
    ∀ i v, f i v = f' i v ∨ ∃ k ∈ spots, f i v = .object (slot k) ∧ f' i v = .object (slot' k)

theorem Opened.sameButSlots {t' : Store} {slot' : Spot → ObjectId} (h : Opened s t root spots slot)
    (h' : Opened s t' root spots slot') : SameButSlots s t t' spots slot slot' := by
  intro x o ho
  obtain ⟨f, hf, hslot, hother⟩ := h.object x o ho
  obtain ⟨f', hf', hslot', hother'⟩ := h'.object x o ho
  refine ⟨f, f', hf, hf', fun i v => ?_⟩
  by_cases hspot : ∃ k ∈ spots, k.KeptBy s root x ∧ k.index = i
  · obtain ⟨k, hk, hkept, rfl⟩ := hspot
    exact .inr ⟨k, hk, hslot k hk hkept v, hslot' k hk hkept v⟩
  · have hne (k : Spot) (hk : k ∈ spots) (hkept : k.KeptBy s root x) : k.index ≠ i :=
      fun hi => hspot ⟨k, hk, hkept, hi⟩
    exact .inl (by rw [hother i v hne, hother' i v hne])

/-- **Slots can be opened in any order.** In a tree that shares no node, let positions be given that
paths lead to, none of them on the way to another. In any order the slots are opened without a failure,
and afterwards

* every position holds its own new placeholder, which knows its parent,
* a path that runs through no position leads to the node that it led to, and `childAt` follows all
  paths that do not go beyond a position,
* an object that keeps none of the positions is as it was, and the others have their other items,
* every other order gives the same but for the identity of the placeholders. -/
theorem open_any_order (htree : s.NodeTree root) (spots : List Spot)
    (hvalid : ∀ k ∈ spots, (s.nodeAt? root k.position).isSome)
    (hapart : spots.Pairwise Spot.Apart)
    {order : List Spot} (horder : order.Perm spots) :
    ∃ slot t, order.mapM (openAt (.object root)) s = .ok (order.map fun k => .object (slot k)) t ∧
      Opened s t root spots slot ∧
      (∀ k ∈ spots, t.nodeAt? root k.position = some (slot k)) ∧
      (∀ path, (∀ k ∈ spots, ¬ k.position <+: path) →
        t.nodeAt? root path = s.nodeAt? root path) ∧
      (∀ path id list, t.nodeAt? root path = some id →
        t.object? list = some (.list (path.map fun i : Nat => .int i)) →
        (∀ k ∈ spots, k.position <+: path → k.position = path) →
        childAt (.object root) (.object list) t = .ok (.object id) t) ∧
      (∀ x o, s.object? x = some o → (∀ k ∈ spots, ¬ k.KeptBy s root x) → t.object? x = some o) ∧
      ∀ order' : List Spot, order'.Perm spots → ∃ slot' t', order'.mapM (openAt (.object root)) s =
          .ok (order'.map fun k => .object (slot' k)) t' ∧
        Opened s t' root spots slot' ∧ SameButSlots s t t' spots slot slot' := by
  have hrun {order : List Spot} (horder : order.Perm spots) : ∃ slot t,
      order.mapM (openAt (.object root)) s = .ok (order.map fun k => .object (slot k)) t ∧
        Opened s t root spots slot := by
    obtain ⟨slot, t, ht, h, -⟩ := mapM_openAt_opened htree order (opened_nil s root fun _ => root)
      (by rw [List.append_nil]; exact fun k hk => hvalid k (horder.mem_iff.1 hk))
      (by rw [List.append_nil]; exact horder.symm.pairwise hapart symm)
    rw [List.append_nil] at h
    exact ⟨slot, t, ht, h.perm horder⟩
  obtain ⟨slot, t, ht, h⟩ := hrun horder
  refine ⟨slot, t, ht, h, fun k hk => h.nodeAt?_position htree hvalid hapart hk,
    fun path => h.nodeAt?_other htree, fun path id list hid hlist hpath => ?_, fun x o ho hx => ?_,
    fun order' horder' => ?_⟩
  · rw [childAt_of_list hlist]
    exact h.foldlM_childAtIndex htree hpath hid
  · obtain ⟨f, hf, -, hother⟩ := h.object x o ho
    have hid : f = fun _ v => v := by
      funext i v
      exact hother i v fun k hk hkept => absurd hkept (hx k hk)
    rw [hf, hid, Object.mapItems_id]
  · obtain ⟨slot', t', ht', h'⟩ := hrun horder'
    exact ⟨slot', t', ht', h', h.sameButSlots h'⟩

/-- An element with a text in it, and a comment; the children of the fragment are a list that is held
elsewhere too. -/
def slotStore : Store :=
  { objects := #[
      .node ⟨.fragment, .shared (.object ⟨4⟩)⟩ [],
      .node ⟨.element (.str "p") .null (.own []) (.own []) (.own []), .own [.object ⟨3⟩]⟩ [],
      .node ⟨.comment (.str "c"), .own []⟩ [],
      .node ⟨.text (.str "t"), .own []⟩ [],
      .list [.object ⟨1⟩, .object ⟨2⟩]] }

theorem nodeAt?_slotStore (h : slotStore.nodeAt? ⟨0⟩ path = some id) :
    (path, id) ∈ [([], (⟨0⟩ : ObjectId)), ([0], ⟨1⟩), ([1], ⟨2⟩), ([0, 0], ⟨3⟩)] := by
  induction path using List.reverseRecOn generalizing id with
  | nil =>
    cases h
    exact List.mem_cons_self
  | append_singleton path i ih =>
    rw [nodeAt?_concat] at h
    obtain ⟨parent, hparent, hchild⟩ := Option.bind_eq_some_iff.1 h
    have hmem := ih hparent
    simp only [List.mem_cons, Prod.mk.injEq, List.not_mem_nil, or_false] at hmem
    rcases hmem with ⟨rfl, rfl⟩ | ⟨rfl, rfl⟩ | ⟨rfl, rfl⟩ | ⟨rfl, rfl⟩
    · rcases i with _ | _ | i <;> cases hchild <;> decide
    · rcases i with _ | i <;> cases hchild
      decide
    · cases hchild
    · cases hchild

theorem nodeTree_slotStore : slotStore.NodeTree ⟨0⟩ := by
  constructor
  · intro path id h
    have hmem := nodeAt?_slotStore h
    simp only [List.mem_cons, Prod.mk.injEq, List.not_mem_nil, or_false] at hmem
    rcases hmem with ⟨-, rfl⟩ | ⟨-, rfl⟩ | ⟨-, rfl⟩ | ⟨-, rfl⟩
    · exact ⟨_, _, rfl, by decide, by simp⟩
    · exact ⟨_, _, rfl, by decide, by simp⟩
    · exact ⟨_, _, rfl, by decide, by simp⟩
    · exact ⟨_, _, rfl, by decide, by simp⟩
  · intro path path' id h h'
    have hmem := nodeAt?_slotStore h
    have hmem' := nodeAt?_slotStore h'
    simp only [List.mem_cons, Prod.mk.injEq, List.not_mem_nil, or_false] at hmem hmem'
    rcases hmem with ⟨rfl, rfl⟩ | ⟨rfl, rfl⟩ | ⟨rfl, rfl⟩ | ⟨rfl, rfl⟩ <;>
      rcases hmem' with ⟨rfl, hid⟩ | ⟨rfl, hid⟩ | ⟨rfl, hid⟩ | ⟨rfl, hid⟩ <;> first | rfl | cases hid

def textSpot : Spot := ⟨[0], 0⟩

def commentSpot : Spot := ⟨[], 1⟩

/-- The text gives way first and the comment then, or the other way round. -/
theorem open_any_order_sample :
    ∃ slot t, [textSpot, commentSpot].mapM (openAt (.object ⟨0⟩)) slotStore =
        .ok [.object (slot textSpot), .object (slot commentSpot)] t ∧
      t.nodeAt? ⟨0⟩ [0, 0] = some (slot textSpot) ∧ t.nodeAt? ⟨0⟩ [1] = some (slot commentSpot) ∧
      t.nodeAt? ⟨0⟩ [0] = some ⟨1⟩ ∧
      ∃ slot' t', [commentSpot, textSpot].mapM (openAt (.object ⟨0⟩)) slotStore =
          .ok [.object (slot' commentSpot), .object (slot' textSpot)] t' ∧
        SameButSlots slotStore t t' [textSpot, commentSpot] slot slot' := by
  obtain ⟨slot, t, ht, -, hslots, hother, -, -, hagain⟩ := open_any_order nodeTree_slotStore
    [textSpot, commentSpot] (by decide) (by decide) (List.Perm.refl _)
  obtain ⟨slot', t', ht', -, hsame⟩ := hagain [commentSpot, textSpot] (List.Perm.swap _ _ _)
  exact ⟨slot, t, ht, hslots textSpot (by decide), hslots commentSpot (by decide),
    hother [0] (by decide), slot', t', ht', hsame⟩

end Document

end TemplateRecovery
