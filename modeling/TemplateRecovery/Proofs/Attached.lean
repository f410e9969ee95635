import TemplateRecovery.Proofs.Frozen
import TemplateRecovery.Proofs.Taxonomy

/-!
# Attaching values to objects

Binding a template changes objects in one way only: a placeholder is bound, a bound attribute gets its
value, an element gets one more modifier. What has been attached is told by a list of targets with the
values written out, and two stores in which the same has been attached show the same.

* `Object.attach` is an object to which one more value is attached.
* `Store.Grown` and `Store.Attached` are later stores in which nothing has changed but that.
* `Binding.bind_attaches`, `Binding.setValue_attaches` and `Binding.addModifier_attaches` are the
  actions that attach.
* `Store.SameAttached.view_eq` compares what two such stores show.
-/

namespace TemplateRecovery

open Object Document Binding

variable {o : Object} {v w : Value} {id : ObjectId}

/-! ### Attaching -/

namespace Object

/-- An object to which a value is attached: a placeholder is bound to it, a bound attribute takes it
as its value, and an element adds it to the modifiers of its own. -/
def attach (v : Value) : Object → Object
  | .node ⟨.placeholder _ parent, children⟩ added => .node ⟨.placeholder v parent, children⟩ added
  | .node ⟨.element tag ns attributes bound (.own modifiers), children⟩ added =>
    .node ⟨.element tag ns attributes bound (.own (modifiers ++ [v])), children⟩ added
  | .morph (.attribute key _ owner) added => .morph (.attribute key v owner) added
  | o => o

def attachAll (o : Object) (vs : List Value) : Object := vs.foldl (fun o v => o.attach v) o

@[simp] theorem attachAll_nil (o : Object) : o.attachAll [] = o := rfl

theorem attachAll_concat (o : Object) (vs : List Value) (v : Value) :
    o.attachAll (vs ++ [v]) = (o.attachAll vs).attach v := by
  simp [attachAll]

/-- What a single attachment leaves alone is the same after any number of them. -/
theorem attachAll_invariant {α : Type} (g : Object → α) (hg : ∀ o v, g (attach v o) = g o)
    (o : Object) (vs : List Value) : g (o.attachAll vs) = g o := by
  induction vs using List.reverseRecOn with
  | nil => rfl
  | append_singleton vs v ih => rw [attachAll_concat, hg, ih]

theorem attachAll_of_fixed (h : ∀ v, attach v o = o) (vs : List Value) : o.attachAll vs = o := by
  induction vs with
  | nil => rfl
  | cons v rest ih =>
    rw [attachAll, List.foldl_cons, h v]
    exact ih

theorem attachAll_placeholder (morph parent : Value) (children : Held (List Value)) (added : Fields)
    (vs : List Value) : attachAll (.node ⟨.placeholder morph parent, children⟩ added) vs =
      .node ⟨.placeholder (vs.getLastD morph) parent, children⟩ added := by
  induction vs generalizing morph with
  | nil => rfl
  | cons v rest ih =>
    rw [List.getLastD_cons]
    exact ih v

theorem attachAll_attribute (key value owner : Value) (added : Fields) (vs : List Value) :
    attachAll (.morph (.attribute key value owner) added) vs =
      .morph (.attribute key (vs.getLastD value) owner) added := by
  induction vs generalizing value with
  | nil => rfl
  | cons v rest ih =>
    rw [List.getLastD_cons]
    exact ih v

theorem attachAll_element (tag ns : Value) (attributes : Held Entries) (bound : Held (List Value))
    (modifiers : List Value) (children : Held (List Value)) (added : Fields) (vs : List Value) :
    attachAll (.node ⟨.element tag ns attributes bound (.own modifiers), children⟩ added) vs =
      .node ⟨.element tag ns attributes bound (.own (modifiers ++ vs)), children⟩ added := by
  induction vs generalizing modifiers with
  | nil => rw [List.append_nil, attachAll_nil]
  | cons v rest ih =>
    rw [List.append_cons]
    exact ih (modifiers ++ [v])

/-- An object is a place for values, or nothing can be attached to it. -/
theorem place_or_fixed (o : Object) :
    (∃ morph parent children added, o = .node ⟨.placeholder morph parent, children⟩ added) ∨
    (∃ tag ns attributes bound modifiers children added,
      o = .node ⟨.element tag ns attributes bound (.own modifiers), children⟩ added) ∨
    (∃ key value owner added, o = .morph (.attribute key value owner) added) ∨
    ∀ v, attach v o = o := by
  unfold attach
  split
  · exact .inl ⟨_, _, _, _, rfl⟩
  · exact .inr (.inl ⟨_, _, _, _, _, _, _, rfl⟩)
  · exact .inr (.inr (.inl ⟨_, _, _, _, rfl⟩))
  · exact .inr (.inr (.inr fun _ => rfl))

/-- A property that an attachment leaves alone is shown for each kind of place. -/
theorem attach_invariant {α : Type} (g : Object → α)
    (hplaceholder : ∀ v morph parent children added,
      g (.node ⟨.placeholder v parent, children⟩ added) =
        g (.node ⟨.placeholder morph parent, children⟩ added))
    (helement : ∀ v tag ns attributes bound modifiers children added,
      g (.node ⟨.element tag ns attributes bound (.own (modifiers ++ [v])), children⟩ added) =
        g (.node ⟨.element tag ns attributes bound (.own modifiers), children⟩ added))
    (hattribute : ∀ v key value owner added,
      g (.morph (.attribute key v owner) added) = g (.morph (.attribute key value owner) added))
    (o : Object) (v : Value) : g (attach v o) = g o := by
  obtain ⟨_, _, _, _, rfl⟩ | ⟨_, _, _, _, _, _, _, rfl⟩ | ⟨_, _, _, _, rfl⟩ | h := o.place_or_fixed
  · exact hplaceholder _ _ _ _ _
  · exact helement _ _ _ _ _ _ _ _
  · exact hattribute _ _ _ _ _
  · rw [h v]

end Object

namespace Store

/-- An object that a value mentions is there. -/
def Present (s : Store) (v : Value) : Prop := ∀ id ∈ v.root?, ∃ o, s.object? id = some o

/-- Every object that is mentioned in a store is there. -/
def Closed (s : Store) : Prop := ∀ id o, s.object? id = some o → ∀ v ∈ o.values, s.Present v

/-- A later store in which nothing has changed but what is attached. -/
def Grown (s t : Store) : Prop :=
  ∀ id o, s.object? id = some o → ∃ vs, t.object? id = some (o.attachAll vs)

variable {s t : Store}

theorem Present.asObject? (hv : s.Present v) (h : s.Grown t) :
    (∃ id o vs, v = .object id ∧ s.asObject? v = some (id, o) ∧
      t.asObject? v = some (id, o.attachAll vs)) ∨
      s.asObject? v = none ∧ t.asObject? v = none := by
  cases v with
  | object id =>
    obtain ⟨o, ho⟩ := hv id rfl
    obtain ⟨vs, ht⟩ := h id o ho
    exact .inl ⟨id, o, vs, rfl, asObject?_of_object? ho, asObject?_of_object? ht⟩
  | _ => exact .inr ⟨rfl, rfl⟩

/-- What is read off an object and is left alone by attachments is the same later. -/
theorem Grown.read {α : Type} (h : s.Grown t) (hv : s.Present v) (g : ObjectId → Object → α)
    (hg : ∀ id o w, g id (o.attach w) = g id o) :
    (t.asObject? v).map (fun found => g found.1 found.2) =
      (s.asObject? v).map fun found => g found.1 found.2 := by
  obtain ⟨id, o, vs, -, hs, ht⟩ | ⟨hs, ht⟩ := hv.asObject? h
  · rw [hs, ht, Option.map_some, Option.map_some, attachAll_invariant (g id) (hg id)]
  · rw [hs, ht]

def placeholderOf (id : ObjectId) : Object → Option ObjectId
  | .node ⟨.placeholder _ _, _⟩ _ => some id
  | _ => none

def attributeOf (id : ObjectId) : Object → Option ObjectId
  | .morph (.attribute _ _ _) _ => some id
  | _ => none

def arrayOf (_ : ObjectId) : Object → Option (List Value)
  | .list items => some items
  | .tuple items => some items
  | _ => none

theorem asPlaceholder?_eq (s : Store) (v : Value) :
    s.asPlaceholder? v = ((s.asObject? v).map fun found => placeholderOf found.1 found.2).join := by
  unfold asPlaceholder? asNode?
  cases s.asObject? v with
  | none => rfl
  | some found =>
    obtain ⟨id, o⟩ := found
    cases o with
    | node n added =>
      obtain ⟨shape, children⟩ := n
      cases shape <;> rfl
    | _ => rfl

theorem asAttribute?_eq (s : Store) (v : Value) :
    s.asAttribute? v = ((s.asObject? v).map fun found => attributeOf found.1 found.2).join := by
  unfold asAttribute?
  cases s.asObject? v with
  | none => rfl
  | some found =>
    obtain ⟨id, o⟩ := found
    cases o with
    | morph m added => cases m <;> rfl
    | _ => rfl

theorem array?_eq (s : Store) (v : Value) :
    s.array? v = ((s.asObject? v).map fun found => arrayOf found.1 found.2).join := by
  unfold array?
  cases s.asObject? v with
  | none => rfl
  | some found =>
    obtain ⟨id, o⟩ := found
    cases o <;> rfl

namespace Grown

theorem asPlaceholder?_eq (h : s.Grown t) (hv : s.Present v) :
    t.asPlaceholder? v = s.asPlaceholder? v := by
  rw [Store.asPlaceholder?_eq, Store.asPlaceholder?_eq, h.read hv placeholderOf fun id =>
    attach_invariant _ (fun _ _ _ _ _ => rfl) (fun _ _ _ _ _ _ _ _ => rfl)
      fun _ _ _ _ _ => rfl]

theorem asAttribute?_eq (h : s.Grown t) (hv : s.Present v) :
    t.asAttribute? v = s.asAttribute? v := by
  rw [Store.asAttribute?_eq, Store.asAttribute?_eq, h.read hv attributeOf fun id =>
    attach_invariant _ (fun _ _ _ _ _ => rfl) (fun _ _ _ _ _ _ _ _ => rfl)
      fun _ _ _ _ _ => rfl]

theorem array?_eq (h : s.Grown t) (hv : s.Present v) : t.array? v = s.array? v := by
  rw [Store.array?_eq, Store.array?_eq, h.read hv arrayOf fun id =>
    attach_invariant _ (fun _ _ _ _ _ => rfl) (fun _ _ _ _ _ _ _ _ => rfl)
      fun _ _ _ _ _ => rfl]

end Grown

/-! ### The owner of a slot -/

def parentOf? (s : Store) (v : Value) : Option Value :=
  ((s.asObject? v).map fun found => Field.value? "parent" found.2).join

theorem Grown.parentOf?_eq (h : s.Grown t) (hv : s.Present v) : t.parentOf? v = s.parentOf? v := by
  rw [parentOf?, parentOf?, h.read hv (fun _ => Field.value? "parent") fun _ =>
    attach_invariant _ (fun _ _ _ _ _ => by simp [Field.value?])
      (fun _ _ _ _ _ _ _ _ => rfl) fun _ _ _ _ _ => by simp [Field.value?]]

theorem typeMember?_parent_ne_object (s : Store) (v : Value) (id : ObjectId) :
    Attribute.typeMember? s v "parent" ≠ some (.object id) := by
  have hpart : Attribute.part? v "parent" = none := by
    cases v with
    | moment m => cases m <;> rfl
    | _ => rfl
  have hdescriptor : Attribute.descriptor? v "parent" ≠ some (.object id) := by
    unfold Attribute.descriptor?
    split
    · split_ifs <;> rintro ⟨⟩
    · rintro ⟨⟩
  have hclass : ¬ "parent" = "__class__" := by decide
  have hhash : ¬ "parent" = "__hash__" := by decide
  simp only [Attribute.typeMember?, hclass, hhash, decide_false, Bool.false_and, Bool.false_eq_true,
    if_false, hpart, Option.none_or]
  cases hd : Attribute.descriptor? v "parent" with
  | some w =>
    rw [hd] at hdescriptor
    simpa using hdescriptor
  | none =>
    rw [Option.none_or]
    split_ifs <;> rintro ⟨⟩

def ownerOf? (s : Store) (slot : Value) : Option Element :=
  (s.parentOf? slot).bind (element? s)

theorem element?_of_ne_object (hv : ∀ id, v ≠ .object id) : element? s v = none := by
  cases v with
  | object id => exact absurd rfl (hv id)
  | _ => rfl

theorem owner_eq (s : Store) (slot : Value) :
    (Attribute.plain? s slot "parent").bind (element? s) = s.ownerOf? slot := by
  have htype : (Attribute.typeMember? s slot "parent").bind (element? s) = none := by
    cases htype : Attribute.typeMember? s slot "parent" with
    | none => rfl
    | some w =>
      exact element?_of_ne_object fun id hw => typeMember?_parent_ne_object s slot id (hw ▸ htype)
  unfold Attribute.plain? ownerOf? parentOf?
  cases s.asObject? slot with
  | none => exact htype
  | some found =>
    simp only [Option.map_some, Option.join_some]
    cases Field.value? "parent" found.2 with
    | none => exact htype
    | some w => rfl

/-- An element with so many more modifiers. -/
theorem Grown.element?_own (h : s.Grown t) {e : Element}
    (he : element? s w = some e) {items : List Value} (hown : e.modifiers = .own items) :
    ∃ vs, element? t w = some { e with modifiers := .own (items ++ vs) } := by
  obtain ⟨⟨shape, children⟩, tag, ns, rfl, hn, hshape⟩ := element?_eq_some_iff.1 he
  obtain ⟨added, ho⟩ := node?_eq_some hn
  obtain ⟨vs, hvs⟩ := h e.id _ ho
  simp only at hshape
  rw [hshape, hown, attachAll_element] at hvs
  have hn' : t.node? e.id =
      some ⟨.element tag ns e.attributes e.bound (.own (items ++ vs)), children⟩ := by
    rw [node?, hvs]
    rfl
  exact ⟨vs, element?_eq_some_iff.2 ⟨_, tag, ns, rfl, hn', rfl⟩⟩

theorem Grown.element?_eq_none (h : s.Grown t) (hw : s.Present w)
    (he : element? s w = none) : element? t w = none := by
  obtain ⟨id, o, vs, rfl, hs, ht⟩ | ⟨hs, ht⟩ := hw.asObject? h
  · rw [element?, asNode?, hs] at he
    rw [element?, asNode?, ht]
    obtain ⟨_, _, _, _, rfl⟩ | ⟨_, _, _, _, _, _, _, rfl⟩ | ⟨_, _, _, _, rfl⟩ | hfixed :=
      o.place_or_fixed
    · rw [attachAll_placeholder]
    · cases he
    · rw [attachAll_attribute]
    · rw [attachAll_of_fixed hfixed]
      exact he
  · rw [element?, asNode?, ht]

/-! ### One more attachment -/

/-- A store that differs from another in that a value is attached to an object. -/
def AttachesAt (s t : Store) (id : ObjectId) (v : Value) : Prop :=
  ∀ x, t.object? x = if x = id then (s.object? x).map (attach v) else s.object? x

theorem attachesAt_updateNode {n : Node} {added : Fields} {f : Node → Node}
    (ho : s.object? id = some (.node n added))
    (hf : node (f n) added = attach v (.node n added)) :
    s.AttachesAt (s.updateNode id f) id v := by
  intro x
  rw [updateNode, object?_update]
  split_ifs with hx
  · subst hx
    rw [ho, Option.map_some, Option.map_some, ← hf]
    rfl
  · rfl

end Store

namespace Binding

variable {s t : Store}

theorem bind_attaches {slot : Value} (hslot : s.asPlaceholder? slot = some id) (hst : s.Extends t)
    (m : Morph) : ∃ u, bind id m t = .ok () u ∧
      (t.push (.morph m [])).AttachesAt u id (.object t.next) := by
  obtain ⟨-, old, parent, children, added, ho⟩ := Store.isPlaceholder_of_asPlaceholder? hslot
  exact ⟨_, bind_apply id m t,
    Store.attachesAt_updateNode (Store.object?_push_of_some (hst id _ ho) _) rfl⟩

theorem setValue_attaches {target : Value} (htarget : s.asAttribute? target = some id)
    (hst : s.Extends t) (v : Value) :
    ∃ u, setValue id v t = .ok () u ∧ t.AttachesAt u id v := by
  unfold Store.asAttribute? at htarget
  split at htarget
  · next i key old owner added hobject =>
    cases htarget
    obtain ⟨-, ho⟩ := Store.asObject?_eq_some hobject
    refine ⟨_, setValue_apply id v t, fun x => ?_⟩
    rw [Store.updateMorph, Store.object?_update]
    split_ifs with hx
    · subst hx
      rw [hst _ _ ho]
      rfl
    · rfl
  · cases htarget

theorem addModifier_attaches {e : Element} {items : List Value}
    (he : element? s w = some e) (hown : e.modifiers = .own items) (hst : s.Extends t)
    (c : HelperCall) : ∃ u, addModifier e c t = .ok () u ∧
      (t.push (.morph (.element c) [])).AttachesAt u e.id (.object t.next) := by
  obtain ⟨⟨shape, children⟩, tag, ns, -, hn, hshape⟩ := element?_eq_some_iff.1 he
  obtain ⟨added, ho⟩ := Store.node?_eq_some hn
  simp only at hshape
  rw [hshape, hown] at ho
  exact ⟨_, addModifier_ok hown c t,
    Store.attachesAt_updateNode (Store.object?_push_of_some (hst _ _ ho) _) rfl⟩

end Binding

/-! ### What has been attached -/

/-- What a statement attaches: the object that it belongs to, and the morph or value written out. -/
structure Attachment where
  target : ObjectId
  shown : View

def shownAt (id : ObjectId) (done : List Attachment) : List View :=
  (done.filter (·.target = id)).map (·.shown)

theorem shownAt_concat (id : ObjectId) (done : List Attachment) (a : Attachment) :
    shownAt id (done ++ [a]) = if a.target = id then shownAt id done ++ [a.shown]
      else shownAt id done := by
  unfold shownAt
  rw [List.filter_append, List.map_append]
  split_ifs with h
  · simp [h]
  · simp [h]

theorem shownAt_eq_nil {live : List ObjectId} {done : List Attachment}
    (hdone : ∀ a ∈ done, a.target ∈ live) (hid : id ∉ live) : shownAt id done = [] := by
  have hfilter : done.filter (·.target = id) = [] := by
    refine List.filter_eq_nil_iff.2 fun a ha => ?_
    simp only [decide_eq_true_eq]
    rintro rfl
    exact hid (hdone a ha)
  rw [shownAt, hfilter, List.map_nil]

namespace Store

/-- A later store in which attachments have been made in order, and nothing else has changed. The
values that are attached do not show any object that attachments change. -/
def Attached (s : Store) (live : List ObjectId) (done : List Attachment) (t : Store) : Prop :=
  ∀ id o, s.object? id = some o →
    ∃ vs, t.object? id = some (o.attachAll vs) ∧ List.Forall₂ (t.Denotes live) vs (shownAt id done)

variable {s t u : Store} {live : List ObjectId} {done : List Attachment}

theorem attached_refl (s : Store) (live : List ObjectId) : s.Attached live [] s :=
  fun _ _ ho => ⟨[], ho, .nil⟩

namespace Attached

section Attaching

variable (h : s.Attached live done t)

include h

theorem grown : s.Grown t := by
  intro id o ho
  obtain ⟨vs, hvs, -⟩ := h id o ho
  exact ⟨vs, hvs⟩

theorem object?_eq (hdone : ∀ a ∈ done, a.target ∈ live)
    (hid : id ∉ live) (ho : s.object? id = some o) : t.object? id = some o := by
  obtain ⟨vs, hvs, hshown⟩ := h id o ho
  rw [shownAt_eq_nil hdone hid] at hshown
  cases hshown
  exact hvs

/-- What shows none of the objects that attachments change is shown as before. -/
theorem denotes (hdone : ∀ a ∈ done, a.target ∈ live)
    (hv : s.Frozen live v) : t.Denotes live v (s.view v) :=
  ⟨hv.frame fun _ _ hid ho => ⟨hid, h.object?_eq hdone hid ho⟩,
    hv.view_frame fun _ _ hid ho => h.object?_eq hdone hid ho⟩

theorem extend (htu : t.Extends u) : s.Attached live done u := by
  intro id o ho
  obtain ⟨vs, hvs, hshown⟩ := h id o ho
  exact ⟨vs, htu id _ hvs, hshown.imp fun _ _ hv => hv.keep htu⟩

theorem attach {shown : View} (hat : t.AttachesAt u id v)
    (hid : id ∈ live) (hv : t.Denotes live v shown) :
    s.Attached live (done ++ [⟨id, shown⟩]) u := by
  have hframe : ∀ x o, x ∉ live → t.object? x = some o → u.object? x = some o := by
    intro x o hx ho
    rw [hat x, if_neg, ho]
    rintro rfl
    exact hx hid
  have hkeep : ∀ w shown, t.Denotes live w shown → u.Denotes live w shown := fun w shown hw =>
    ⟨hw.1.frame fun x o hx ho => ⟨hx, hframe x o hx ho⟩, (hw.1.view_frame hframe).trans hw.2⟩
  intro x o ho
  obtain ⟨vs, hvs, hshown⟩ := h x o ho
  have hshown' : List.Forall₂ (u.Denotes live) vs (shownAt x done) := hshown.imp hkeep
  rw [hat x, hvs, shownAt_concat]
  by_cases hx : x = id
  · subst hx
    rw [if_pos rfl, if_pos rfl]
    refine ⟨vs ++ [v], ?_, List.rel_append hshown' (.cons (hkeep v shown hv) .nil)⟩
    rw [attachAll_concat]
    rfl
  · rw [if_neg hx, if_neg (Ne.symm hx)]
    exact ⟨vs, rfl, hshown'⟩

end Attaching

end Attached

end Store

/-! ### What two stores show -/

namespace Object

@[simp] theorem backs_attachAll (o : Object) (vs : List Value) : (o.attachAll vs).backs = o.backs :=
  attachAll_invariant backs (attach_invariant backs (fun _ _ _ _ _ => rfl)
    (fun _ _ _ _ _ _ _ _ => rfl) fun _ _ _ _ _ => rfl) o vs

end Object

namespace Store

variable {s t t' : Store} {live : List ObjectId}

theorem present_tagOf (hclosed : s.Closed) (v : Value) : s.Present (s.tagOf v) := by
  unfold tagOf
  split
  · next id tag ns attributes bound modifiers children hnode =>
    obtain ⟨-, hn⟩ := asNode?_eq_some_iff.1 hnode
    obtain ⟨added, ho⟩ := node?_eq_some hn
    exact hclosed id _ ho tag (by simp [values, Shape.values, Shape.contents])
  · rintro id ⟨⟩

/-- Everything that an object passes on is there. -/
theorem Closed.contents (hclosed : s.Closed) (ho : s.object? id = some o) (hv : v ∈ s.contents o) :
    s.Present v := by
  rcases mem_values_of_mem_contents hv with hv | ⟨b, -, rfl⟩
  · exact hclosed id o ho v hv
  · exact present_tagOf hclosed b

namespace Grown

def tagOfObject (_ : ObjectId) : Object → Value
  | .node ⟨.element tag _ _ _ _, _⟩ _ => tag
  | _ => .null

theorem tagOf_eq (h : s.Grown t) (hv : s.Present v) : t.tagOf v = s.tagOf v := by
  have heq : ∀ u : Store, u.tagOf v =
      ((u.asObject? v).map fun found => tagOfObject found.1 found.2).getD .null := by
    intro u
    unfold tagOf asNode?
    cases u.asObject? v with
    | none => rfl
    | some found =>
      obtain ⟨id, o⟩ := found
      cases o with
      | node n added =>
        obtain ⟨shape, children⟩ := n
        cases shape <;> rfl
      | _ => rfl
  rw [heq, heq, h.read hv tagOfObject fun id => attach_invariant _
    (fun _ _ _ _ _ => rfl) (fun _ _ _ _ _ _ _ _ => rfl) fun _ _ _ _ _ => rfl]

theorem typeName_eq (h : s.Grown t) (hv : s.Present v) : t.typeName v = s.typeName v := by
  cases v with
  | object id =>
    obtain ⟨o, ho⟩ := hv id rfl
    obtain ⟨vs, ht⟩ := h id o ho
    rw [typeName, typeName, ho, ht, Option.map_some, Option.map_some,
      Object.attachAll_invariant Object.typeName (Object.attach_invariant _ (fun _ _ _ _ _ => rfl)
        (fun _ _ _ _ _ _ _ _ => rfl) fun _ _ _ _ _ => rfl)]
  | method owner name =>
    cases owner with
    | object id =>
      obtain ⟨o, ho⟩ := hv id rfl
      obtain ⟨vs, ht⟩ := h id o ho
      obtain ⟨_, _, _, _, rfl⟩ | ⟨_, _, _, _, _, _, _, rfl⟩ | ⟨_, _, _, _, rfl⟩ | hfixed :=
        o.place_or_fixed
      · rw [attachAll_placeholder] at ht
        simp only [typeName, ho, ht]
      · rw [attachAll_element] at ht
        simp only [typeName, ho, ht]
      · rw [attachAll_attribute] at ht
        simp only [typeName, ho, ht]
      · rw [attachAll_of_fixed hfixed] at ht
        simp only [typeName, ho, ht]
    | _ => rfl
  | _ => rfl

theorem parentView_eq (h : s.Grown t) (hv : s.Present v) : t.parentView v = s.parentView v := by
  have htype := h.typeName_eq hv
  cases v with
  | null => rfl
  | object id =>
    obtain ⟨o, ho⟩ := hv id rfl
    obtain ⟨vs, ht⟩ := h id o ho
    rw [parentView, parentView, asObject?_of_object? ho, asObject?_of_object? ht, htype]
    · obtain ⟨_, _, _, _, rfl⟩ | ⟨_, _, _, _, _, _, _, rfl⟩ | ⟨_, _, _, _, rfl⟩ | hfixed :=
        o.place_or_fixed
      · rw [attachAll_placeholder]
        rfl
      · rw [attachAll_element]
        rfl
      · rw [attachAll_attribute]
        rfl
      · rw [attachAll_of_fixed hfixed]
    all_goals rintro ⟨⟩
  | _ => exact congrArg (fun name => View.other name "") htype

end Grown

theorem forall₂_mem {α β : Type} {R : α → β → Prop} {vs : List α} {vs' : List β}
    (h : List.Forall₂ R vs vs') : List.Forall₂ (fun v v' => v ∈ vs ∧ v' ∈ vs' ∧ R v v') vs vs' := by
  induction h with
  | nil => exact .nil
  | cons hv _ ih =>
    exact .cons ⟨List.mem_cons_self, List.mem_cons_self, hv⟩ (ih.imp fun _ _ ⟨hw, hw', hR⟩ =>
      ⟨List.mem_cons_of_mem _ hw, List.mem_cons_of_mem _ hw', hR⟩)

theorem forall₂_join {α β γ : Type} {R : α → γ → Prop} {R' : β → γ → Prop} {Q : α → β → Prop}
    (hQ : ∀ a b c, R a c → R' b c → Q a b) :
    ∀ {as : List α} {bs : List β} {cs : List γ}, List.Forall₂ R as cs → List.Forall₂ R' bs cs →
      List.Forall₂ Q as bs
  | _, _, _, .nil, .nil => .nil
  | _, _, _, .cons ha has, .cons hb hbs => .cons (hQ _ _ _ ha hb) (forall₂_join hQ has hbs)

theorem getLastD_rel {α β : Type} {R : α → β → Prop} {v : α} {v' : β} {vs : List α} {vs' : List β}
    (hv : R v v') (h : List.Forall₂ R vs vs') : R (vs.getLastD v) (vs'.getLastD v') := by
  induction h generalizing v v' with
  | nil => exact hv
  | cons hw _ ih =>
    rw [List.getLastD_cons, List.getLastD_cons]
    exact ih hw

/-- An object to which values are attached is written out in one way, if what it held before and the
attached values that it passes on are. -/
theorem viewObject_attachAll {f g : Nat → Value → View} {k : Nat} {vs vs' : List Value}
    (hold : ∀ w ∈ s.contents o, w ∈ s.contents (o.attachAll vs) →
      w ∈ s.contents (o.attachAll vs') → f k w = g k w ∧ f (k + 1) w = g (k + 1) w)
    (hnew : List.Forall₂ (fun v v' => v ∈ s.contents (o.attachAll vs) →
      v' ∈ s.contents (o.attachAll vs') → f k v = g k v' ∧ f (k + 1) v = g (k + 1) v') vs vs') :
    s.viewObject f k (o.attachAll vs) = s.viewObject g k (o.attachAll vs') := by
  obtain ⟨morph, parent, children, added, rfl⟩ | ⟨tag, ns, attributes, bound, modifiers, children,
    added, rfl⟩ | ⟨key, value, owner, added, rfl⟩ | hfixed := o.place_or_fixed
  · rw [attachAll_placeholder, attachAll_placeholder] at hold hnew ⊢
    have hchildren : viewObject.items f k children = viewObject.items g k children :=
      viewObject_items_congr fun w hw => hold w (List.mem_append_right _ hw)
        (List.mem_append_right _ hw) (List.mem_append_right _ hw)
    have hlast : f k (vs.getLastD morph) = g k (vs'.getLastD morph) := by
      cases hnew with
      | nil => exact (hold morph (by simp [contents, Shape.contents])
          (by simp [contents, Shape.contents]) (by simp [contents, Shape.contents])).1
      | cons hv hrest =>
        rw [List.getLastD_cons, List.getLastD_cons] at hv hrest ⊢
        exact (getLastD_rel hv hrest (by simp [contents, Shape.contents])
          (by simp [contents, Shape.contents])).1
    simp only [viewObject, hchildren, hlast]
  · rw [attachAll_element, attachAll_element] at hold hnew ⊢
    have hsame : ∀ w ∈ tag :: ns :: (attributes.paired ++ (bound.listed ++
        (modifiers ++ children.listed))), f k w = g k w ∧ f (k + 1) w = g (k + 1) w := by
      intro w hw
      refine hold w ?_ ?_ ?_ <;>
        simp only [contents, Shape.contents, Held.listed, List.mem_cons, List.mem_append] at hw ⊢ <;>
        tauto
    have hvalue : ∀ w ∈ [tag, ns], f k w = g k w := fun w hw =>
      (hsame w (by simp only [List.mem_cons, List.not_mem_nil, or_false] at hw ⊢; tauto)).1
    have hattributes : viewObject.entries f k attributes = viewObject.entries g k attributes :=
      viewObject_entries_congr fun w hw => (hsame w (by simp [hw])).1
    have hbound : viewObject.items f k bound = viewObject.items g k bound :=
      viewObject_items_congr fun w hw => hsame w (by simp [hw])
    have hchildren : viewObject.items f k children = viewObject.items g k children :=
      viewObject_items_congr fun w hw => hsame w (by simp [hw])
    have hmodifiers : modifiers.map (f (k + 1)) = modifiers.map (g (k + 1)) :=
      List.map_congr_left fun w hw => (hsame w (by simp [hw])).2
    have hmem : ∀ more, ∀ v ∈ more, v ∈ s.contents
        (.node ⟨.element tag ns attributes bound (.own (modifiers ++ more)), children⟩ added) := by
      intro more v hv
      simp [contents, Shape.contents, Held.listed, hv]
    have hattached : vs.map (f (k + 1)) = vs'.map (g (k + 1)) := by
      rw [← List.forall₂_eq_eq_eq, List.forall₂_map_left_iff, List.forall₂_map_right_iff]
      refine (forall₂_mem hnew).imp fun v v' h => ?_
      exact (h.2.2 (hmem vs v h.1) (hmem vs' v' h.2.1)).2
    have hlist : viewObject.items f k (.own (modifiers ++ vs)) =
        viewObject.items g k (.own (modifiers ++ vs')) := by
      simp only [viewObject.items, List.map_append, hmodifiers, hattached]
    simp only [viewObject, hvalue tag (by simp), hvalue ns (by simp), hattributes, hbound, hchildren,
      hlist]
  · rw [attachAll_attribute, attachAll_attribute] at hold hnew ⊢
    have hkey := hold key (by simp [contents]) (by simp [contents]) (by simp [contents])
    have howner := hold (s.tagOf owner) (by simp [contents]) (by simp [contents]) (by simp [contents])
    have hlast : f k (vs.getLastD value) = g k (vs'.getLastD value) := by
      cases hnew with
      | nil => exact (hold value (by simp [contents]) (by simp [contents]) (by simp [contents])).1
      | cons hv hrest =>
        rw [List.getLastD_cons, List.getLastD_cons] at hv hrest ⊢
        exact (getLastD_rel hv hrest (by simp [contents]) (by simp [contents])).1
    simp only [viewObject, hkey.1, howner.1, hlast]
  · rw [attachAll_of_fixed hfixed, attachAll_of_fixed hfixed] at hold ⊢
    exact viewObject_congr_at fun w hw => hold w hw hw hw

/-- Two later stores in which values that are written out alike have been attached to each object. -/
def SameAttached (s : Store) (live : List ObjectId) (t t' : Store) : Prop :=
  ∀ id o, s.object? id = some o → ∃ vs vs', t.object? id = some (o.attachAll vs) ∧
    t'.object? id = some (o.attachAll vs') ∧
    List.Forall₂ (fun v v' => t.Frozen live v ∧ t'.Frozen live v' ∧ t.view v = t'.view v') vs vs'

namespace SameAttached

open Frozen

theorem viewWithin_eq (h : s.SameAttached live t t') (hclosed : s.Closed) {n n' depth : Nat}
    {opened : Opened} (hv : s.Present v) (ht : Leads t (opened.map (·.1)) v)
    (ht' : Leads t' (opened.map (·.1)) v) (hn : t.objects.size < (opened.map (·.1)).length + n)
    (hn' : t'.objects.size < (opened.map (·.1)).length + n') :
    t.viewWithin n opened depth v = t'.viewWithin n' opened depth v := by
  have hgrown : s.Grown t := fun id o ho => by
    obtain ⟨vs, _, hvs, -⟩ := h id o ho
    exact ⟨vs, hvs⟩
  have hgrown' : s.Grown t' := fun id o ho => by
    obtain ⟨_, vs, -, hvs, -⟩ := h id o ho
    exact ⟨vs, hvs⟩
  induction n generalizing n' opened depth v with
  | zero =>
    -- no more objects are open than there are
    have := length_le_size_of_nodup ht.nodup ht.lt
    omega
  | succ n ih =>
    cases n' with
    | zero =>
      have := length_le_size_of_nodup ht'.nodup ht'.lt
      omega
    | succ n' =>
      cases v with
      | object id =>
        obtain ⟨o, ho⟩ := hv id rfl
        obtain ⟨vs, vs', hvs, hvs', hR⟩ := h id o ho
        by_cases hid : id ∈ opened.map (·.1)
        · -- of an open object only its brackets are shown, and attaching keeps them
          have hbracket : ∀ vs, bracketOf (o.attachAll vs) = bracketOf o :=
            attachAll_invariant bracketOf (attach_invariant _ (fun _ _ _ _ _ => rfl)
              (fun _ _ _ _ _ _ _ _ => rfl) fun _ _ _ _ _ => rfl) o
          obtain ⟨d, hlookup⟩ : ∃ d, opened.lookup id = some d := by
            refine Option.ne_none_iff_exists'.1 fun hnone => ?_
            obtain ⟨entry, hentry, rfl⟩ := List.mem_map.1 hid
            exact absurd (List.lookup_eq_none_iff.1 hnone entry hentry) (by simp)
          simp only [viewWithin, hlookup, hvs, hvs', Option.map_some, hbracket]
        · have hbacks : ∀ {u : Store}, s.Grown u → ∀ vs, ∀ b ∈ (o.attachAll vs).backs,
              u.tagOf b = s.tagOf b ∧ u.parentView b = s.parentView b := by
            intro u hu vs b hb
            rw [backs_attachAll] at hb
            have hpresent := hclosed id o ho b (mem_values_of_mem_backs hb)
            exact ⟨hu.tagOf_eq hpresent, hu.parentView_eq hpresent⟩
          have hcontents := contents_of_backs fun b hb => (hbacks hgrown vs b hb).1
          have hcontents' := contents_of_backs fun b hb => (hbacks hgrown' vs' b hb).1
          rw [viewWithin_object hvs hid, viewWithin_object hvs' hid,
            viewObject_of_backs _ _ (hbacks hgrown vs), viewObject_of_backs _ _ (hbacks hgrown' vs')]
          have hsize : ∀ m k, m < (opened.map (·.1)).length + (k + 1) →
              m < (((id, depth) :: opened).map (·.1)).length + k := by
            intro m k hm
            rw [List.map_cons, List.length_cons]
            omega
          refine viewObject_attachAll (fun w hw hwt hwt' => ?_)
            (hR.imp fun v v' hsame hvt hvt' => ?_)
          · have hlead := ht.open hid hvs (hcontents ▸ hwt)
            have hlead' := ht'.open hid hvs' (hcontents' ▸ hwt')
            have hpresent := hclosed.contents ho hw
            exact ⟨ih hpresent hlead hlead' (hsize _ _ hn) (hsize _ _ hn'),
              ih hpresent hlead hlead' (hsize _ _ hn) (hsize _ _ hn')⟩
          · obtain ⟨hfrozen, hfrozen', hview⟩ := hsame
            have hlead := ht.open hid hvs (hcontents ▸ hvt)
            have hlead' := ht'.open hid hvs' (hcontents' ▸ hvt')
            have hleft : ∀ d, t.viewWithin n ((id, depth) :: opened) d v = t.view v := fun _ =>
              hfrozen.viewWithin_eq hlead (hsize _ _ hn)
            have hright : ∀ d, t'.viewWithin n' ((id, depth) :: opened) d v' = t'.view v' := fun _ =>
              hfrozen'.viewWithin_eq hlead' (hsize _ _ hn')
            exact ⟨by rw [hleft, hright, hview], by rw [hleft, hright, hview]⟩
      | method owner name =>
        exact congrArg (fun type => View.callable type ("<method " ++ name ++ ">"))
          ((hgrown.typeName_eq hv).trans (hgrown'.typeName_eq hv).symm)
      | _ => rfl

/-- **Stores in which the same was attached show the same.** -/
theorem view_eq (h : s.SameAttached live t t') (hclosed : s.Closed) (hv : s.Present v) :
    t.view v = t'.view v :=
  h.viewWithin_eq hclosed hv (leads_nil t v) (leads_nil t' v) (by simp [viewFuel])
    (by simp [viewFuel])

end SameAttached

theorem Attached.sameAttached {done done' : List Attachment} (h : s.Attached live done t)
    (h' : s.Attached live done' t') (hsame : ∀ id, shownAt id done = shownAt id done') :
    s.SameAttached live t t' := by
  intro id o ho
  obtain ⟨vs, hvs, hshown⟩ := h id o ho
  obtain ⟨vs', hvs', hshown'⟩ := h' id o ho
  rw [hsame id] at hshown
  exact ⟨vs, vs', hvs, hvs', forall₂_join (fun _ _ _ hv hv' => ⟨hv.1, hv'.1, hv.2.trans hv'.2.symm⟩)
    hshown hshown'⟩

end Store

end TemplateRecovery
