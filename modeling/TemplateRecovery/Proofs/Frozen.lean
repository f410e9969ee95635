import TemplateRecovery.Proofs.Action

/-!
# Values that stay as they are

While a template is recovered, some objects of the store still change and the others never will
again. A value is frozen if no object that still changes can be seen from it and nothing below it is
circular. Such a value is written out the same way whatever is around it, and the same way in every
store in which only other objects have changed.

* `Store.contents` are the values that writing out an object passes on.
* `Store.Frozen` are the values from which no changing object can be seen.
* `Store.Frozen.view_object` writes a frozen object out by its parts.
* `Store.Frozen.frame` and `Store.Frozen.view_frame` say that changes elsewhere do not matter.
* `Store.Frozen.tree_eq` reads what a frozen part prints off the way it is written out.
-/

namespace TemplateRecovery

variable {o : Object} {b v w : Value} {entries : Entries} {fuel : Nat} {id : ObjectId}
  {opened : List ObjectId}

/-! ### What is seen from an object -/

/-- The items of a container, or the container that stands for them. -/
def Held.listed : Held (List Value) → List Value
  | .own items => items
  | .shared v => [v]

/-- The keys and values of a container, or the container that stands for them. -/
def Held.paired : Held Entries → List Value
  | .own entries => entries.flatMap fun (k, v) => [k, v]
  | .shared v => [v]

/-- Whether a container belongs to its object. -/
def Held.IsOwn {α : Type} : Held α → Prop
  | .own _ => True
  | .shared _ => False

def HelperCall.contents (c : HelperCall) : List Value :=
  c.name :: (c.params.listed ++ c.hash.paired)

/-- Whether both containers of a call belong to it. -/
def HelperCall.Owns (c : HelperCall) : Prop := c.params.IsOwn ∧ c.hash.IsOwn

def Shape.contents : Shape → List Value
  | .fragment => []
  | .element tag ns attributes bound modifiers =>
    tag :: ns :: (attributes.paired ++ (bound.listed ++ modifiers.listed))
  | .text contents => [contents]
  | .comment contents => [contents]
  | .placeholder morph _ => [morph]

/-- Whether the containers of a shape belong to it. -/
def Shape.Owns : Shape → Prop
  | .element _ _ attributes bound modifiers =>
    attributes.IsOwn ∧ bound.IsOwn ∧ modifiers.IsOwn
  | _ => True

/-- The objects of which an object shows only the kind or the tag. -/
def Object.backs : Object → List Value
  | .morph (.attribute _ _ owner) _ => [owner]
  | .node ⟨.placeholder _ parent, _⟩ _ => [parent]
  | .slot owner _ => [owner]
  | _ => []

/-- Whether the containers of an object belong to it. -/
def Object.Owns : Object → Prop
  | .expression (.concat parts) => parts.IsOwn
  | .expression (.subexpr c) => c.Owns
  | .morph (.inline c) _ => c.Owns
  | .morph (.element c) _ => c.Owns
  | .morph (.block c _ _) _ => c.Owns
  | .node n _ => n.shape.Owns ∧ n.children.IsOwn
  | _ => True

def Expression.values : Expression → List Value
  | .literal v => [v]
  | .path p => [p]
  | .concat parts => parts.listed
  | .subexpr c => c.contents

def Morph.values : Morph → List Value
  | .inline c => c.contents
  | .element c => c.contents
  | .attribute key value owner => [key, value, owner]
  | .content v => [v]
  | .block c primary alternate => primary :: alternate :: c.contents

def Shape.values : Shape → List Value
  | .placeholder morph parent => [morph, parent]
  | shape => shape.contents

def Function.values : Function → List Value
  | .loader answer => [answer]
  | _ => []

/-- All values that an object holds, whether it shows them or not. -/
def Object.values : Object → List Value
  | .list items => items
  | .tuple items => items
  | .map entries => entries.flatMap fun (k, v) => [k, v]
  | .record fields => fields.map (·.2)
  | .expression e => e.values
  | .morph m added => m.values ++ added.map (·.2)
  | .node n added => n.shape.values ++ (n.children.listed ++ added.map (·.2))
  | .slot owner added => owner :: added.map (·.2)
  | .function f added => f.values ++ added.map (·.2)
  | .document ns => [ns]
  | .hooks => []
  | .environment dom table => [dom, table]

theorem Object.mem_values_of_mem_backs (hb : b ∈ o.backs) : b ∈ o.values := by
  cases o with
  | morph m added =>
    cases m with
    | «attribute» key value owner =>
      rw [List.mem_singleton.1 hb]
      simp [Object.values, Morph.values]
    | _ => cases hb
  | node n added =>
    obtain ⟨shape, children⟩ := n
    cases shape with
    | placeholder morph parent =>
      rw [List.mem_singleton.1 hb]
      simp [Object.values, Shape.values]
    | _ => cases hb
  | slot owner added =>
    rw [List.mem_singleton.1 hb]
    exact List.mem_cons_self
  | _ => cases hb

/-- The object that a value is, or on which a function works. -/
def Value.root? : Value → Option ObjectId
  | .object id => some id
  | .method owner _ => owner.root?
  | _ => none

/-- Whether a value has no parts and shows nothing of a store. -/
def Value.isScalar : Value → Bool
  | .method _ _ => false
  | .object _ => false
  | _ => true

namespace Store

/-- The values that writing out an object passes on. -/
def contents (s : Store) : Object → List Value
  | .list items => items
  | .tuple items => items
  | .map entries => entries.flatMap fun (k, v) => [k, v]
  | .record fields => fields.map (·.2)
  | .expression (.literal v) => [v]
  | .expression (.path p) => [p]
  | .expression (.concat parts) => parts.listed
  | .expression (.subexpr c) => c.contents
  | .morph (.inline c) _ => c.contents
  | .morph (.element c) _ => c.contents
  | .morph (.attribute key value owner) _ => [key, value, s.tagOf owner]
  | .morph (.content v) _ => [v]
  | .morph (.block c primary alternate) _ => primary :: alternate :: c.contents
  | .node n _ => n.shape.contents ++ n.children.listed
  | .slot owner _ => [s.tagOf owner]
  | _ => []

variable {s t : Store} {f g : Nat → Value → View} {j k : Nat}

theorem viewObject_items_congr {h : Held (List Value)}
    (hcongr : ∀ v ∈ h.listed, f j v = g k v ∧ f (j + 1) v = g (k + 1) v) :
    viewObject.items f j h = viewObject.items g k h := by
  cases h with
  | own items =>
    simp only [viewObject.items, View.list.injEq]
    exact List.map_congr_left fun v hv => (hcongr v hv).2
  | shared v => exact (hcongr v (List.mem_singleton.2 rfl)).1

theorem map_pairs_congr (hcongr : ∀ v ∈ entries.flatMap (fun (k, v) => [k, v]), f j v = g k v) :
    entries.map (fun (a, b) => (f j a, f j b)) = entries.map fun (a, b) => (g k a, g k b) := by
  refine List.map_congr_left fun (a, b) hab => ?_
  simp only
  rw [hcongr a (List.mem_flatMap.2 ⟨(a, b), hab, by simp⟩),
    hcongr b (List.mem_flatMap.2 ⟨(a, b), hab, by simp⟩)]

theorem viewObject_entries_congr {h : Held Entries} (hcongr : ∀ v ∈ h.paired, f j v = g k v) :
    viewObject.entries f j h = viewObject.entries g k h := by
  cases h with
  | own entries =>
    simp only [viewObject.entries, View.map.injEq]
    exact map_pairs_congr hcongr
  | shared v => exact hcongr v (List.mem_singleton.2 rfl)

/-- How an object is written out depends only on how the values that it passes on are, at its depth
and one below. -/
theorem viewObject_congr_at (hcongr : ∀ v ∈ s.contents o, f j v = g k v ∧ f (j + 1) v = g (k + 1) v) :
    s.viewObject f j o = s.viewObject g k o := by
  have hitems : ∀ h : Held (List Value), (∀ v ∈ h.listed, v ∈ s.contents o) →
      viewObject.items f j h = viewObject.items g k h := fun h hsub =>
    viewObject_items_congr fun v hv => hcongr v (hsub v hv)
  have hentries : ∀ h : Held Entries, (∀ v ∈ h.paired, v ∈ s.contents o) →
      viewObject.entries f j h = viewObject.entries g k h := fun h hsub =>
    viewObject_entries_congr fun v hv => (hcongr v (hsub v hv)).1
  have hvalue : ∀ v ∈ s.contents o, f j v = g k v := fun v hv => (hcongr v hv).1
  cases o with
  | list items => exact congrArg View.list (List.map_congr_left hvalue)
  | tuple items => exact congrArg View.tuple (List.map_congr_left hvalue)
  | map entries => exact congrArg View.map (map_pairs_congr hvalue)
  | record fields =>
    refine congrArg View.record (List.map_congr_left fun (a, b) hab => ?_)
    simp only
    rw [hvalue b (List.mem_map.2 ⟨(a, b), hab, rfl⟩)]
  | expression e =>
    cases e with
    | literal v | path v => simp [viewObject, hvalue v (by simp [contents])]
    | concat parts => simp [viewObject, hitems parts (by simp [contents])]
    | subexpr c =>
      simp [viewObject, hvalue c.name (by simp [contents, HelperCall.contents]),
        hitems c.params (by simp +contextual [contents, HelperCall.contents]),
        hentries c.hash (by simp +contextual [contents, HelperCall.contents])]
  | morph m added =>
    cases m with
    | inline c | element c =>
      simp [viewObject, hvalue c.name (by simp [contents, HelperCall.contents]),
        hitems c.params (by simp +contextual [contents, HelperCall.contents]),
        hentries c.hash (by simp +contextual [contents, HelperCall.contents])]
    | «attribute» key value owner =>
      simp [viewObject, hvalue key (by simp [contents]), hvalue value (by simp [contents]),
        hvalue (s.tagOf owner) (by simp [contents])]
    | content v => simp [viewObject, hvalue v (by simp [contents])]
    | block c primary alternate =>
      simp [viewObject, hvalue c.name (by simp [contents, HelperCall.contents]),
        hvalue primary (by simp [contents]), hvalue alternate (by simp [contents]),
        hitems c.params (by simp +contextual [contents, HelperCall.contents]),
        hentries c.hash (by simp +contextual [contents, HelperCall.contents])]
  | node n added =>
    obtain ⟨shape, children⟩ := n
    have hchildren := hitems children (by simp +contextual [contents])
    cases shape with
    | fragment => simp [viewObject, hchildren]
    | element tag ns attributes bound modifiers =>
      simp [viewObject, hchildren, hvalue tag (by simp [contents, Shape.contents]),
        hvalue ns (by simp [contents, Shape.contents]),
        hentries attributes (by simp +contextual [contents, Shape.contents]),
        hitems bound (by simp +contextual [contents, Shape.contents]),
        hitems modifiers (by simp +contextual [contents, Shape.contents])]
    | text v | comment v =>
      simp [viewObject, hchildren, hvalue v (by simp [contents, Shape.contents])]
    | placeholder morph parent =>
      simp [viewObject, hchildren, hvalue morph (by simp [contents, Shape.contents])]
  | slot owner added => simp [viewObject, hvalue (s.tagOf owner) (by simp [contents])]
  | _ => rfl

theorem viewObject_congr (hcongr : ∀ i i', ∀ v ∈ s.contents o, f i v = g i' v) :
    s.viewObject f j o = s.viewObject g k o :=
  viewObject_congr_at fun v hv => ⟨hcongr _ _ v hv, hcongr _ _ v hv⟩

/-- What an object passes on is the same in two stores that show the same of its owner or parent. -/
theorem contents_of_backs (hbacks : ∀ b ∈ o.backs, t.tagOf b = s.tagOf b) :
    t.contents o = s.contents o := by
  cases o with
  | morph m added =>
    cases m with
    | «attribute» key value owner => simp only [contents, hbacks owner (by simp [Object.backs])]
    | _ => rfl
  | slot owner added => simp only [contents, hbacks owner (by simp [Object.backs])]
  | expression e => cases e <;> rfl
  | _ => rfl

/-- An object is written out in the same way in two stores that show the same of its owner or
parent. -/
theorem viewObject_of_backs (f : Nat → Value → View) (depth : Nat)
    (hbacks : ∀ b ∈ o.backs, t.tagOf b = s.tagOf b ∧ t.parentView b = s.parentView b) :
    t.viewObject f depth o = s.viewObject f depth o := by
  cases o with
  | morph m added =>
    cases m with
    | «attribute» key value owner =>
      simp only [viewObject, (hbacks owner (by simp [Object.backs])).1]
    | _ => rfl
  | slot owner added => simp only [viewObject, (hbacks owner (by simp [Object.backs])).1]
  | node n added =>
    obtain ⟨shape, children⟩ := n
    cases shape with
    | placeholder morph parent =>
      simp only [viewObject, (hbacks parent (by simp [Object.backs])).2]
    | _ => rfl
  | expression e => cases e <;> rfl
  | _ => rfl

/-- What an object passes on is held by it, or is the tag of its owner. -/
theorem mem_values_of_mem_contents (hv : v ∈ s.contents o) :
    v ∈ o.values ∨ ∃ b ∈ o.backs, v = s.tagOf b := by
  cases o with
  | expression e => cases e <;> exact .inl hv
  | morph m added =>
    cases m with
    | «attribute» key value owner =>
      simp only [contents, List.mem_cons, List.not_mem_nil, or_false] at hv
      rcases hv with rfl | rfl | rfl
      · exact .inl (by simp [Object.values, Morph.values])
      · exact .inl (by simp [Object.values, Morph.values])
      · exact .inr ⟨owner, List.mem_singleton.2 rfl, rfl⟩
    | _ => exact .inl (List.mem_append_left _ hv)
  | node n added =>
    obtain ⟨shape, children⟩ := n
    refine .inl ?_
    rcases List.mem_append.1 hv with hv | hv
    · refine List.mem_append_left _ ?_
      cases shape with
      | placeholder morph parent =>
        rw [List.mem_singleton.1 hv]
        exact List.mem_cons_self
      | _ => exact hv
    · exact List.mem_append_right _ (List.mem_append_left _ hv)
  | slot owner added =>
    rw [List.mem_singleton.1 hv]
    exact .inr ⟨owner, List.mem_singleton.2 rfl, rfl⟩
  | list items | tuple items | map entries | record fields => exact .inl hv
  | _ => cases hv

/-! ### Frozen values -/

/-- The values from which no object that still changes can be seen, and below which nothing is
circular: those without parts, and objects that do not change and pass on frozen values only. -/
inductive Frozen (s : Store) (live : List ObjectId) : Value → Prop
  | scalar {v : Value} : v.isScalar = true → Frozen s live v
  | object {id : ObjectId} {o : Object} : s.object? id = some o → id ∉ live → o.Owns →
      (∀ b ∈ o.backs, ∃ i p, b = .object i ∧ i ∉ live ∧ s.object? i = some p) →
      (∀ v ∈ s.contents o, Frozen s live v) → Frozen s live (.object id)

/-- An object passes on another. -/
def Within (s : Store) (a b : ObjectId) : Prop :=
  ∃ o, s.object? a = some o ∧ .object b ∈ s.contents o

theorem not_transGen_of_acc {α : Type} {R : α → α → Prop} {a : α}
    (h : Acc (fun b a => R a b) a) : ¬ Relation.TransGen R a a := by
  induction h with
  | intro a _ ih =>
    intro hcycle
    obtain ⟨b, hab, hba⟩ := Relation.TransGen.head'_iff.1 hcycle
    exact ih b hab (Relation.TransGen.tail' hba hab)

/-- A list of open objects that leads to a value along a relation: all of them are there and above
it, and none stands there twice. -/
structure Trail (R : ObjectId → ObjectId → Prop) (s : Store) (opened : List ObjectId) (v : Value) :
    Prop where
  nodup : opened.Nodup
  lt : ∀ a ∈ opened, a.index < s.objects.size
  above : ∀ id, v = .object id → ∀ a ∈ opened, Relation.TransGen R a id

section Trail

variable {R : ObjectId → ObjectId → Prop} {opened : List ObjectId} {id : ObjectId}

theorem trail_nil (R : ObjectId → ObjectId → Prop) (s : Store) (v : Value) : Trail R s [] v :=
  ⟨List.nodup_nil, by simp, by simp⟩

theorem Trail.not_mem (h : Trail R s opened (.object id)) (hacc : Acc (fun b a => R a b) id) :
    id ∉ opened :=
  fun hid => not_transGen_of_acc hacc (h.above id rfl id hid)

theorem Trail.open (h : Trail R s opened (.object id)) (hid : id ∉ opened)
    (ho : s.object? id = some o) (hw : ∀ b, w = .object b → R id b) :
    Trail R s (id :: opened) w where
  nodup := List.nodup_cons.2 ⟨hid, h.nodup⟩
  lt a ha := by
    rcases List.mem_cons.1 ha with rfl | ha
    · exact index_lt_of_object? ho
    · exact h.lt a ha
  above b hb a ha := by
    rcases List.mem_cons.1 ha with rfl | ha
    · exact .single (hw b hb)
    · exact (h.above id rfl a ha).tail (hw b hb)

/-- A trail leaves room for one more open object. -/
theorem Trail.exists_fuel (h : Trail R s opened v) (id : ObjectId)
    (hfuel : s.objects.size < opened.length + fuel) :
    ∃ n, fuel = n + 1 ∧ s.objects.size < (id :: opened).length + n := by
  have hle := length_le_size_of_nodup h.nodup h.lt
  refine ⟨fuel - 1, by omega, ?_⟩
  simp only [List.length_cons]
  omega

end Trail

namespace Frozen

variable {live : List ObjectId} {v : Value}

theorem acc (h : s.Frozen live v) : ∀ id, v = .object id → Acc (fun b a => s.Within a b) id := by
  induction h with
  | scalar hv =>
    rintro id rfl
    cases hv
  | object ho _ _ _ _ ih =>
    rintro id ⟨⟩
    refine ⟨_, fun b ⟨p, hp, hb⟩ => ?_⟩
    rw [ho] at hp
    cases hp
    exact ih _ hb b rfl

theorem object_inv (h : s.Frozen live (.object id)) :
    ∃ o, s.object? id = some o ∧ id ∉ live ∧ o.Owns ∧
      (∀ b ∈ o.backs, ∃ i p, b = .object i ∧ i ∉ live ∧ s.object? i = some p) ∧
      ∀ w ∈ s.contents o, s.Frozen live w := by
  cases h with
  | scalar hv => cases hv
  | object ho hlive howns hbacks hcontents => exact ⟨_, ho, hlive, howns, hbacks, hcontents⟩

/-- A list of open objects that leads to a value by what the objects pass on. -/
abbrev Leads (s : Store) (opened : List ObjectId) (v : Value) : Prop := Trail s.Within s opened v

theorem leads_nil (s : Store) (v : Value) : Leads s [] v := trail_nil _ s v

theorem Leads.not_mem (h : s.Frozen live (.object id)) (hopened : Leads s opened (.object id)) :
    id ∉ opened :=
  Trail.not_mem hopened (h.acc id rfl)

theorem Leads.open (hopened : Leads s opened (.object id)) (hid : id ∉ opened)
    (ho : s.object? id = some o) (hw : w ∈ s.contents o) : Leads s (id :: opened) w :=
  Trail.open hopened hid ho fun _ hb => ⟨o, ho, hb ▸ hw⟩

theorem Leads.cons (h : s.Frozen live (.object id)) (hopened : Leads s opened (.object id))
    (ho : s.object? id = some o) (hw : w ∈ s.contents o) : Leads s (id :: opened) w :=
  hopened.open (hopened.not_mem h) ho hw

/-- Below a frozen object there is room for one more open object. -/
theorem Leads.exists_fuel (_ : s.Frozen live (.object id)) (hopened : Leads s opened (.object id))
    (hfuel : s.objects.size < opened.length + fuel) :
    ∃ n, fuel = n + 1 ∧ s.objects.size < (id :: opened).length + n :=
  Trail.exists_fuel hopened id hfuel

theorem viewWithin_scalar (hv : v.isScalar = true) (fuel : Nat) (opened : Opened) (depth : Nat) :
    s.viewWithin fuel opened depth v = s.viewScalar v := by
  cases fuel with
  | zero => rfl
  | succ fuel =>
    cases v with
    | object id => cases hv
    | _ => rfl

theorem viewWithin_object (ho : s.object? id = some o) {opened : Opened}
    (hid : id ∉ opened.map (·.1)) (fuel depth : Nat) :
    s.viewWithin (fuel + 1) opened depth (.object id) =
      s.viewObject (s.viewWithin fuel ((id, depth) :: opened)) (depth + 1) o := by
  have hlookup : opened.lookup id = none := by
    rw [List.lookup_eq_none_iff]
    intro p hp
    rw [bne_iff_ne]
    rintro rfl
    exact hid (List.mem_map.2 ⟨p, hp, rfl⟩)
  rw [viewWithin, hlookup, ho]

/-- A frozen value is written out in the same way inside any open objects that lead to it. -/
theorem viewWithin_eq (h : s.Frozen live v) {opened : Opened} {depth : Nat}
    (hopened : Leads s (opened.map (·.1)) v)
    (hfuel : s.objects.size < (opened.map (·.1)).length + fuel) :
    s.viewWithin fuel opened depth v = s.view v := by
  induction h generalizing fuel opened depth with
  | scalar hv => rw [view, viewWithin_scalar hv, viewWithin_scalar hv]
  | @object id o ho hlive howns hbacks hcontents ih =>
    have hfrozen : s.Frozen live (.object id) := .object ho hlive howns hbacks hcontents
    obtain ⟨n, rfl, hn⟩ := hopened.exists_fuel hfrozen hfuel
    rw [view, viewFuel, viewWithin_object ho (hopened.not_mem hfrozen),
      viewWithin_object ho (by simp)]
    refine viewObject_congr fun i i' w hw => ?_
    have hinside : s.viewWithin n ((id, depth) :: opened) i w = s.view w :=
      ih w hw (hopened.cons hfrozen ho hw) hn
    have hfirst : s.viewWithin s.objects.size [(id, 0)] i' w = s.view w := by
      refine ih w hw ((leads_nil s _).cons hfrozen ho hw) ?_
      simp only [List.map_cons, List.map_nil, List.length_cons, List.length_nil]
      omega
    rw [hinside, hfirst]

/-- **A frozen object is written out by its parts.** -/
theorem view_object (h : s.Frozen live (.object id)) (ho : s.object? id = some o) (depth : Nat) :
    s.view (.object id) = s.viewObject (fun _ => s.view) depth o := by
  obtain ⟨p, hp, -, -, -, hcontents⟩ := h.object_inv
  rw [ho] at hp
  cases hp
  rw [view, viewFuel, viewWithin_object ho (by simp)]
  refine viewObject_congr fun i i' w hw => ?_
  have hopened : Leads s ([(id, 0)].map (·.1)) w := (leads_nil s _).cons h ho hw
  refine (hcontents w hw).viewWithin_eq hopened ?_
  simp only [List.map_cons, List.map_nil, List.length_cons, List.length_nil]
  omega

theorem view_scalar (hv : v.isScalar = true) : s.view v = s.viewScalar v :=
  viewWithin_scalar hv _ _ _

/-! ### Changes elsewhere -/

theorem tagOf_frame {i : ObjectId} {p : Object} (hb : b = .object i) (hs : s.object? i = some p)
    (ht : t.object? i = some p) : t.tagOf b = s.tagOf b := by
  subst hb
  simp only [tagOf, asNode?, asObject?_of_object? hs, asObject?_of_object? ht]

theorem parentView_frame {i : ObjectId} {p : Object} (hb : b = .object i)
    (hs : s.object? i = some p) (ht : t.object? i = some p) : t.parentView b = s.parentView b := by
  subst hb
  simp only [parentView, asObject?_of_object? hs, asObject?_of_object? ht, typeName, hs, ht]

variable {live' : List ObjectId}

/-- What an object shows of others is the same in two stores that agree on those. -/
theorem contents_frame
    (hbacks : ∀ b ∈ o.backs, ∃ i p, b = .object i ∧ s.object? i = some p ∧ t.object? i = some p) :
    t.contents o = s.contents o := by
  refine contents_of_backs fun b hb => ?_
  obtain ⟨i, p, hb, hs, ht⟩ := hbacks b hb
  exact tagOf_frame hb hs ht

theorem viewObject_frame (f : Nat → Value → View) (depth : Nat)
    (hbacks : ∀ b ∈ o.backs, ∃ i p, b = .object i ∧ s.object? i = some p ∧ t.object? i = some p) :
    t.viewObject f depth o = s.viewObject f depth o := by
  refine viewObject_of_backs f depth fun b hb => ?_
  obtain ⟨i, p, hb, hs, ht⟩ := hbacks b hb
  exact ⟨tagOf_frame hb hs ht, parentView_frame hb hs ht⟩

/-- **A frozen value stays frozen** when only objects change that it does not show. -/
theorem frame (h : s.Frozen live v)
    (hst : ∀ id o, id ∉ live → s.object? id = some o → id ∉ live' ∧ t.object? id = some o) :
    t.Frozen live' v := by
  induction h with
  | scalar hv => exact .scalar hv
  | @object id o ho hlive howns hbacks hcontents ih =>
    obtain ⟨hlive', ho'⟩ := hst id o hlive ho
    refine .object ho' hlive' howns (fun b hb => ?_) fun w hw => ?_
    · obtain ⟨i, p, rfl, hi, hp⟩ := hbacks b hb
      obtain ⟨hi', hp'⟩ := hst i p hi hp
      exact ⟨i, p, rfl, hi', hp'⟩
    · have hsame : t.contents o = s.contents o := contents_frame fun b hb => by
        obtain ⟨i, p, rfl, hi, hp⟩ := hbacks b hb
        exact ⟨i, p, rfl, hp, (hst i p hi hp).2⟩
      rw [hsame] at hw
      exact ih w hw

/-- **A frozen value is written out as before** when only objects change that it does not show. -/
theorem view_frame (h : s.Frozen live v)
    (hst : ∀ id o, id ∉ live → s.object? id = some o → t.object? id = some o) :
    t.view v = s.view v := by
  induction h with
  | @scalar w hv =>
    rw [view_scalar hv, view_scalar hv]
    cases w with
    | method owner name => cases hv
    | _ => rfl
  | @object id o ho hlive howns hbacks hcontents ih =>
    have hfrozen : s.Frozen live (.object id) := .object ho hlive howns hbacks hcontents
    have hfrozen' : t.Frozen live (.object id) :=
      hfrozen.frame fun i p hi hp => ⟨hi, hst i p hi hp⟩
    have hshown : ∀ b ∈ o.backs, ∃ i p, b = .object i ∧ s.object? i = some p ∧
        t.object? i = some p := by
      intro b hb
      obtain ⟨i, p, rfl, hi, hp⟩ := hbacks b hb
      exact ⟨i, p, rfl, hp, hst i p hi hp⟩
    rw [hfrozen.view_object ho 0, hfrozen'.view_object (hst id o hlive ho) 0,
      viewObject_frame _ _ hshown]
    exact viewObject_congr fun _ _ w hw => ih w hw

/-- A frozen value stays frozen in a store that only has more objects. -/
theorem keep (h : s.Frozen live v) (hst : s.Extends t) : t.Frozen live v :=
  h.frame fun id o hid ho => ⟨hid, hst id o ho⟩

theorem view_keep (h : s.Frozen live v) (hst : s.Extends t) : t.view v = s.view v :=
  h.view_frame fun id o _ ho => hst id o ho

/-- A new object is frozen if it passes on frozen values only. -/
theorem push (howns : o.Owns) (hnext : s.next ∉ live) (hbacks : o.backs = [])
    (hcontents : ∀ w ∈ s.contents o, s.Frozen live w) :
    (s.push o).Frozen live (.object s.next) ∧
      (s.push o).view (.object s.next) = s.viewObject (fun _ => s.view) 0 o := by
  have hnone : ∀ (t : Store) b, b ∈ o.backs → ∃ i p, b = .object i ∧ s.object? i = some p ∧
      t.object? i = some p := by
    intro t b hb
    rw [hbacks] at hb
    cases hb
  have hfrozen : (s.push o).Frozen live (.object s.next) := by
    refine .object (object?_push_next s o) hnext howns ?_ fun w hw => ?_
    · rw [hbacks]
      simp
    · rw [contents_frame (hnone _)] at hw
      exact (hcontents w hw).keep (extends_push s o)
  refine ⟨hfrozen, ?_⟩
  rw [hfrozen.view_object (object?_push_next s o) 0, viewObject_frame _ _ (hnone _)]
  exact viewObject_congr fun _ _ w hw => (hcontents w hw).view_keep (extends_push s o)

end Frozen

/-- A value is frozen and written out as a view. -/
def Denotes (s : Store) (live : List ObjectId) (v : Value) (shown : View) : Prop :=
  s.Frozen live v ∧ s.view v = shown

theorem Denotes.keep {live : List ObjectId} {shown : View} (h : s.Denotes live v shown)
    (hst : s.Extends t) : t.Denotes live v shown :=
  ⟨h.1.keep hst, (h.1.view_keep hst).trans h.2⟩

end Store

/-! ### What is printed -/

namespace View

/-- Whether a view is that of a node or a morph, which print by their parts. -/
def isPart : View → Bool
  | .inline _ _ _ => true
  | .modifier _ _ _ => true
  | .attribute _ _ _ => true
  | .content _ => true
  | .block _ _ _ _ _ => true
  | .fragment _ => true
  | .element _ _ _ _ _ _ => true
  | .text _ _ => true
  | .comment _ _ => true
  | .placeholder _ _ _ => true
  | _ => false

mutual

/-- What is printed of a part that is written out in full: namespaces, owners, parents and the
children of leaves are left out. -/
def prune : View → View
  | .literal v => .literal (if v.isPart then v.prune else v)
  | .path p => .path (if p.isPart then p.prune else p)
  | .concat (.list parts) => .concat (.list (pruneAll parts))
  | .subexpr name (.list params) (.map hash) =>
    .subexpr (if name.isPart then name.prune else name) (.list (pruneAll params))
      (.map (pruneHash hash))
  | .inline name (.list params) (.map hash) =>
    .inline (if name.isPart then name.prune else name) (.list (pruneAll params))
      (.map (pruneHash hash))
  | .modifier name (.list params) (.map hash) =>
    .modifier (if name.isPart then name.prune else name) (.list (pruneAll params))
      (.map (pruneHash hash))
  | .attribute key value _ => .attribute (if key.isPart then key.prune else key) value.prune .null
  | .content v => .content (if v.isPart then v.prune else v)
  | .block name (.list params) (.map hash) primary alternate =>
    .block (if name.isPart then name.prune else name) (.list (pruneAll params))
      (.map (pruneHash hash)) primary.prune alternate.prune
  | .fragment (.list children) => .fragment (.list (pruneAll children))
  | .element tag _ (.map attributes) (.list bound) (.list modifiers) (.list children) =>
    .element (if tag.isPart then tag.prune else tag) .null (.map (pruneShown attributes))
      (.list (pruneAll bound)) (.list (pruneAll modifiers)) (.list (pruneAll children))
  | .text contents _ => .text (if contents.isPart then contents.prune else contents) .null
  | .comment contents _ => .comment (if contents.isPart then contents.prune else contents) .null
  | .placeholder morph _ _ => .placeholder morph.prune .null .null
  | v => v

/-- What is printed of several parts. -/
def pruneAll : List View → List View
  | [] => []
  | v :: rest => v.prune :: pruneAll rest

/-- What is printed of named arguments. -/
def pruneHash : List (View × View) → List (View × View)
  | [] => []
  | (k, v) :: rest => (if k.isPart then k.prune else k, v.prune) :: pruneHash rest

/-- What is printed of static attributes. -/
def pruneShown : List (View × View) → List (View × View)
  | [] => []
  | (k, v) :: rest =>
    (if k.isPart then k.prune else k, if v.isPart then v.prune else v) :: pruneShown rest

end

/-- What is printed of a value that is shown by its text. -/
def shown (v : View) : View := if v.isPart then v.prune else v

theorem pruneAll_map {α : Type} (f : α → View) (items : List α) :
    pruneAll (items.map f) = items.map fun v => (f v).prune := by
  induction items with
  | nil => rfl
  | cons v rest ih => rw [List.map_cons, pruneAll, ih, List.map_cons]

theorem pruneHash_map {α β : Type} (f : α → View) (g : β → View) (entries : List (α × β)) :
    pruneHash (entries.map fun (k, v) => (f k, g v)) =
      entries.map fun (k, v) => ((f k).shown, (g v).prune) := by
  induction entries with
  | nil => rfl
  | cons e rest ih => rw [List.map_cons, pruneHash, ih, List.map_cons]; rfl

theorem pruneShown_map {α β : Type} (f : α → View) (g : β → View) (entries : List (α × β)) :
    pruneShown (entries.map fun (k, v) => (f k, g v)) =
      entries.map fun (k, v) => ((f k).shown, (g v).shown) := by
  induction entries with
  | nil => rfl
  | cons e rest ih => rw [List.map_cons, pruneShown, ih, List.map_cons]; rfl

end View

namespace Store

variable {s : Store} {tree shown view : Value → View} {k : Nat}

theorem items_eq_prune {items : List Value} (htree : ∀ v ∈ items, tree v = (view v).prune) :
    treeObject.items s tree shown (.own items) = .list (View.pruneAll (items.map view)) := by
  rw [View.pruneAll_map]
  exact congrArg View.list (List.map_congr_left htree)

theorem entries_eq_prune (htree : ∀ v ∈ (Held.own entries).paired, tree v = (view v).prune)
    (hshown : ∀ v ∈ (Held.own entries).paired, shown v = (view v).shown) :
    treeObject.entries s tree shown (.own entries) =
      .map (View.pruneHash (entries.map fun (k, v) => (view k, view v))) := by
  rw [View.pruneHash_map]
  refine congrArg View.map (List.map_congr_left fun (a, b) hab => ?_)
  simp only
  rw [hshown a (List.mem_flatMap.2 ⟨(a, b), hab, by simp⟩),
    htree b (List.mem_flatMap.2 ⟨(a, b), hab, by simp⟩)]

theorem shownEntries_eq_prune (hshown : ∀ v ∈ (Held.own entries).paired, shown v = (view v).shown) :
    treeObject.shownEntries s shown (.own entries) =
      .map (View.pruneShown (entries.map fun (k, v) => (view k, view v))) := by
  rw [View.pruneShown_map]
  refine congrArg View.map (List.map_congr_left fun (a, b) hab => ?_)
  simp only
  rw [hshown a (List.mem_flatMap.2 ⟨(a, b), hab, by simp⟩),
    hshown b (List.mem_flatMap.2 ⟨(a, b), hab, by simp⟩)]

/-- The name, the parameters and the named arguments of a call that owns its containers, written out
and as they are printed. -/
theorem call_eq_prune (s : Store) {c : HelperCall} (howns : c.Owns) (k : Nat)
    (htree : ∀ v ∈ c.contents, tree v = (view v).prune)
    (hshown : ∀ v ∈ c.contents, shown v = (view v).shown) :
    ∃ params hash, viewObject.items (fun _ => view) k c.params = .list params ∧
      viewObject.entries (fun _ => view) k c.hash = .map hash ∧
      shown c.name = (view c.name).shown ∧
      treeObject.items s tree shown c.params = .list (View.pruneAll params) ∧
      treeObject.entries s tree shown c.hash = .map (View.pruneHash hash) := by
  obtain ⟨name, params, hash⟩ := c
  have hname := hshown name (by simp [HelperCall.contents])
  cases params with
  | shared v => exact howns.1.elim
  | own params =>
    cases hash with
    | shared v => exact howns.2.elim
    | own hash =>
      refine ⟨_, _, rfl, rfl, hname, items_eq_prune fun v hv => htree v ?_,
        entries_eq_prune (fun v hv => htree v ?_) fun v hv => hshown v ?_⟩
      · exact List.mem_cons_of_mem _ (List.mem_append_left _ hv)
      · exact List.mem_cons_of_mem _ (List.mem_append_right _ hv)
      · exact List.mem_cons_of_mem _ (List.mem_append_right _ hv)

theorem treeObject_expression_eq_prune {e : Expression} (howns : (Object.expression e).Owns)
    (htree : ∀ v ∈ s.contents (.expression e), tree v = (view v).prune)
    (hshown : ∀ v ∈ s.contents (.expression e), shown v = (view v).shown) :
    s.treeObject tree shown (.expression e) =
      (s.viewObject (fun _ => view) k (.expression e)).prune := by
  cases e with
  | literal v => exact congrArg View.literal (hshown v (by simp [contents]))
  | path v => exact congrArg View.path (hshown v (by simp [contents]))
  | concat parts =>
    cases parts with
    | own parts => exact congrArg View.concat (items_eq_prune htree)
    | shared v => exact howns.elim
  | subexpr c =>
    obtain ⟨params, hash, hparams, hhash, hname, hparams', hhash'⟩ :=
      call_eq_prune s howns k htree hshown
    simp only [treeObject, viewObject, hparams, hhash, hname, hparams', hhash', View.prune,
      View.shown]

theorem treeObject_morph_eq_prune {m : Morph} {added : Fields} (howns : (Object.morph m added).Owns)
    (htree : ∀ v ∈ s.contents (.morph m added), tree v = (view v).prune)
    (hshown : ∀ v ∈ s.contents (.morph m added), shown v = (view v).shown) :
    s.treeObject tree shown (.morph m added) =
      (s.viewObject (fun _ => view) k (.morph m added)).prune := by
  cases m with
  | inline c | element c =>
    obtain ⟨params, hash, hparams, hhash, hname, hparams', hhash'⟩ :=
      call_eq_prune s howns k htree hshown
    simp only [treeObject, viewObject, hparams, hhash, hname, hparams', hhash', View.prune,
      View.shown]
  | «attribute» key value owner =>
    simp only [treeObject, viewObject, View.prune, hshown key (by simp [contents]),
      htree value (by simp [contents]), View.shown]
  | content v => exact congrArg View.content (hshown v (by simp [contents]))
  | block c primary alternate =>
    obtain ⟨params, hash, hparams, hhash, hname, hparams', hhash'⟩ :=
      call_eq_prune s howns k (fun v hv => htree v (by simp [contents, hv]))
        fun v hv => hshown v (by simp [contents, hv])
    simp only [treeObject, viewObject, hparams, hhash, hname, hparams', hhash', View.prune,
      View.shown, htree primary (by simp [contents]), htree alternate (by simp [contents])]

theorem treeObject_node_eq_prune {n : Node} {added : Fields} (howns : (Object.node n added).Owns)
    (htree : ∀ v ∈ s.contents (.node n added), tree v = (view v).prune)
    (hshown : ∀ v ∈ s.contents (.node n added), shown v = (view v).shown) :
    s.treeObject tree shown (.node n added) =
      (s.viewObject (fun _ => view) k (.node n added)).prune := by
  obtain ⟨shape, children⟩ := n
  cases children with
  | shared v => exact howns.2.elim
  | own children =>
    have hchildren : treeObject.items s tree shown (.own children) =
        .list (View.pruneAll (children.map view)) :=
      items_eq_prune fun v hv => htree v (List.mem_append_right _ hv)
    have htree : ∀ v ∈ shape.contents, tree v = (view v).prune := fun v hv =>
      htree v (List.mem_append_left _ hv)
    have hshown : ∀ v ∈ shape.contents, shown v = (view v).shown := fun v hv =>
      hshown v (List.mem_append_left _ hv)
    cases shape with
    | fragment => exact congrArg View.fragment hchildren
    | element tag ns attributes bound modifiers =>
      obtain ⟨⟨hattributes, hbound, hmodifiers⟩, -⟩ := howns
      cases attributes with
      | shared v => exact hattributes.elim
      | own attributes =>
        cases bound with
        | shared v => exact hbound.elim
        | own bound =>
          cases modifiers with
          | shared v => exact hmodifiers.elim
          | own modifiers =>
            have hstatic : treeObject.shownEntries s shown (.own attributes) =
                .map (View.pruneShown (attributes.map fun (k, v) => (view k, view v))) :=
              shownEntries_eq_prune fun v hv => hshown v (by simp [Shape.contents, hv])
            have hbound : treeObject.items s tree shown (.own bound) =
                .list (View.pruneAll (bound.map view)) :=
              items_eq_prune fun v hv => htree v (by simp [Shape.contents, Held.listed, hv])
            have hmodifiers : treeObject.items s tree shown (.own modifiers) =
                .list (View.pruneAll (modifiers.map view)) :=
              items_eq_prune fun v hv => htree v (by simp [Shape.contents, Held.listed, hv])
            simp only [treeObject, viewObject, viewObject.items, viewObject.entries, View.prune,
              hchildren, hstatic, hbound, hmodifiers, hshown tag (by simp [Shape.contents]),
              View.shown]
    | text v | comment v =>
      simp only [treeObject, viewObject, View.prune, hshown v (by simp [Shape.contents]),
        View.shown]
    | placeholder morph parent =>
      simp only [treeObject, viewObject, View.prune, htree morph (by simp [Shape.contents])]

namespace Frozen

variable {live : List ObjectId} {v : Value}

theorem view_eq_shown (h : s.Frozen live (.object id)) (ho : s.object? id = some o)
    (hkind : Method.kindOf? o = none) : (s.view (.object id)).prune = s.view (.object id) := by
  rw [h.view_object ho 0]
  cases o with
  | expression e | morph m added | node n added => cases hkind
  | _ => rfl

/-- A frozen value is shown by its parts exactly if it is written out as a node or a morph. -/
theorem isPart_view (h : s.Frozen live v) : (s.view v).isPart = s.isPrinted v := by
  cases v with
  | object id =>
    obtain ⟨o, ho, -⟩ := h.object_inv
    rw [h.view_object ho 0, isPrinted, asObject?_of_object? ho]
    cases o with
    | expression e => cases e <;> rfl
    | morph m added => cases m <;> rfl
    | node n added =>
      obtain ⟨shape, children⟩ := n
      cases shape <;> rfl
    | _ => rfl
  | _ => rfl

/-- What is printed of a frozen value inside any open objects that lead to it. -/
theorem treeWithin_eq (h : s.Frozen live v) (hopened : Leads s opened v)
    (hfuel : s.objects.size < opened.length + fuel) :
    s.treeWithin (fuel + 1) opened v = (s.view v).prune := by
  induction h generalizing fuel opened with
  | @scalar v hv =>
    cases v with
    | object id => cases hv
    | _ => rfl
  | @object id o ho hlive howns hbacks hcontents ih =>
    have hfrozen : s.Frozen live (.object id) := .object ho hlive howns hbacks hcontents
    obtain ⟨n, rfl, hn⟩ := hopened.exists_fuel hfrozen hfuel
    have htree : ∀ w ∈ s.contents o, s.treeWithin (n + 1) (id :: opened) w = (s.view w).prune :=
      fun w hw => ih w hw (hopened.cons hfrozen ho hw) hn
    have hshown : ∀ w ∈ s.contents o,
        (if s.isPrinted w then s.treeWithin (n + 1) (id :: opened) w else s.view w) =
          (s.view w).shown := by
      intro w hw
      rw [← (hcontents w hw).isPart_view, htree w hw, View.shown]
    have hclosed : opened.contains id = false := by
      simpa using hopened.not_mem hfrozen
    rw [treeWithin, asObject?_of_object? ho]
    simp only [hclosed, Bool.false_eq_true, if_false]
    cases o with
    | expression e =>
      rw [hfrozen.view_object ho 0]
      exact treeObject_expression_eq_prune howns htree hshown
    | morph m added =>
      rw [hfrozen.view_object ho 0]
      exact treeObject_morph_eq_prune howns htree hshown
    | node n added =>
      rw [hfrozen.view_object ho 0]
      exact treeObject_node_eq_prune howns htree hshown
    | _ => exact (hfrozen.view_eq_shown ho rfl).symm

/-- **What a frozen value prints can be read off the way it is written out.** -/
theorem tree_eq (h : s.Frozen live v) : s.tree v = (s.view v).prune :=
  h.treeWithin_eq (leads_nil s v) (by simp [viewFuel])

end Frozen

end Store

end TemplateRecovery
