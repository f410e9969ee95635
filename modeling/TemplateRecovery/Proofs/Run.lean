import TemplateRecovery.Hook.Template
import TemplateRecovery.Proofs.Forest

/-!
# Runs keep the tree a forest

A document and its hooks are called in any order, on any arguments, and calls may fail. As long as no
node is appended that has a place or has the parent below it, what they build stays a forest.

* `Run` is any such run; the objects from `base` on are those that it may change, so a branch of a
  block is recovered by a run of its own, on new objects.
* `Run.advances` says that every store of a run is orderly.
-/

namespace TemplateRecovery

open Act.Yields Act Document Binding

variable {s t u : Store} {base : Nat} {id : ObjectId} {v params hash template : Value} {n : Node}
  {m : Machine}

namespace Store

/-! ### Growing stores -/

theorem Extends.keeps (h : s.Extends t) : s.Keeps t :=
  fun id o ho => ⟨o, h id o ho, rfl⟩

/-- The objects below `base` are the same in a later store, and none are lost. -/
structure Leaves (base : Nat) (s t : Store) : Prop where
  size : s.objects.size ≤ t.objects.size
  same : ∀ id, id.index < base → t.object? id = s.object? id

theorem leaves_refl (base : Nat) (s : Store) : Leaves base s s := ⟨le_rfl, fun _ _ => rfl⟩

theorem Leaves.trans (hst : Leaves base s t) (htu : Leaves base t u) : Leaves base s u :=
  ⟨hst.size.trans htu.size, fun id hid => (htu.same id hid).trans (hst.same id hid)⟩

theorem Extends.leaves (h : s.Extends t) (hbase : base ≤ s.objects.size) : Leaves base s t := by
  refine ⟨h.size_le, fun id hid => ?_⟩
  obtain ⟨o, ho⟩ := object?_eq_some_iff_lt.2 (hid.trans_le hbase)
  rw [ho, h id o ho]

theorem Leaves.extends (h : Leaves s.objects.size s t) : s.Extends t :=
  fun id _ ho => (h.same id (index_lt_of_object? ho)).trans ho

theorem leaves_update (hid : base ≤ id.index) (s : Store) (f : Object → Object) :
    Leaves base s (s.update id f) := by
  refine ⟨(s.size_update id f).ge, fun x hx => ?_⟩
  rw [object?_update, if_neg]
  rintro rfl
  omega

/-- A store that a run on the objects from `base` on can go on to. -/
structure Advances (base : Nat) (s t : Store) : Prop where
  orderly : t.Orderly base
  leaves : Leaves base s t

/-- A store that has got data. -/
structure Grows (base : Nat) (s t : Store) : Prop where
  orderly : t.Orderly base
  extend : s.Extends t

theorem Orderly.grows (hs : s.Orderly base) : s.Grows base s :=
  ⟨hs, s.extends_refl⟩

theorem Grows.trans (hst : s.Grows base t) (htu : t.Grows base u) : s.Grows base u :=
  ⟨htu.orderly, hst.extend.trans htu.extend⟩

theorem Grows.advances (h : s.Grows base t) (hbase : base ≤ s.objects.size) : s.Advances base t :=
  ⟨h.orderly, h.extend.leaves hbase⟩

theorem Advances.trans (hst : s.Advances base t) (htu : t.Advances base u) : s.Advances base u :=
  ⟨htu.orderly, hst.leaves.trans htu.leaves⟩

def itemsOf (s : Store) (v : Value) : List Value := (s.array? v).getD []

def valuesOf (s : Store) (v : Value) : List Value := ((s.entries? v).getD []).map (·.2)

/-- A value is null, plain, or an object that is there. -/
def Valid (s : Store) (v : Value) : Prop := ∀ id, v = .object id → ∃ o, s.object? id = some o

theorem Valid.mono (h : s.Valid v) (hst : s.Extends t) : t.Valid v := by
  intro id hid
  obtain ⟨o, ho⟩ := h id hid
  exact ⟨o, hst id o ho⟩

theorem asObject?_of_extends (hst : s.Extends t) (hv : s.Valid v) :
    t.asObject? v = s.asObject? v := by
  cases v with
  | object id =>
    obtain ⟨o, ho⟩ := hv id rfl
    rw [asObject?_of_object? ho, asObject?_of_object? (hst id o ho)]
  | _ => rfl

theorem valuesOf_of_extends (hst : s.Extends t) (hv : s.Valid v) : t.valuesOf v = s.valuesOf v := by
  rw [valuesOf, valuesOf, entries?, entries?, asObject?_of_extends hst hv]

end Store

/-! ### Reading arguments -/

/-- The plain text of a value is found without a change. -/
theorem Act.text_yields (v : Value) (s : Store) :
    (text v).Yields s (fun _ t => t = s) (fun t => t = s) := by
  have htext : text v s = lift (s.text v) s := rfl
  rw [Yields, htext]
  cases s.text v <;> rfl

namespace Hook

open Store

variable {base : Nat}

section Arguments

variable (hs : s.Orderly base)

include hs

theorem asExpression_yields (hv : s.Data v) :
    (asExpression v).Yields s (fun e t => s.Grows base t ∧ t.Data e) (s.Grows base) := by
  have heq : asExpression v s =
      (if s.isExpression v then return v else new (.expression (.literal v)) : Act Value) s := rfl
  rw [Yields, heq]
  split_ifs
  · exact ⟨hs.grows, hv⟩
  · have hadmits : s.Admits (.expression (.literal v)) :=
      ⟨rfl, fun e he => by cases he; exact hv⟩
    refine ⟨⟨hs.push_data hadmits, s.extends_push _⟩, ?_, fun id hid => ?_⟩
    · exact isPrinted_object (object?_push_next s _)
    · cases hid
      exact ⟨_, object?_push_next s _⟩

theorem mapM_asExpression_yields {items : List Value} (h : ∀ v ∈ items, s.Data v) :
    (items.mapM asExpression).Yields s (fun es t => s.Grows base t ∧ ∀ e ∈ es, t.Data e)
      (s.Grows base) := by
  induction items generalizing s with
  | nil => exact ⟨hs.grows, by simp⟩
  | cons v rest ih =>
    rw [List.mapM_cons]
    refine bind ((asExpression_yields hs (h v List.mem_cons_self)).mono ?_ fun _ h => h)
    rintro e t ⟨hst, he⟩
    have hrest : ∀ w ∈ rest, t.Data w :=
      fun w hw => (h w (List.mem_cons_of_mem _ hw)).mono hst.extend.keeps
    refine bind ((ih hst.orderly hrest).mono ?_ fun _ h => hst.trans h)
    rintro es u ⟨htu, hes⟩
    refine ⟨hst.trans htu, fun w hw => ?_⟩
    rcases List.mem_cons.1 hw with rfl | hw
    · exact he.mono htu.extend.keeps
    · exact hes w hw

theorem params_yields (h : ∀ w ∈ s.itemsOf v, s.Data w) :
    (Hook.params v).Yields s (fun es t => s.Grows base t ∧ ∀ e ∈ es, t.Data e) (s.Grows base) := by
  unfold Store.itemsOf at h
  rw [Yields, Hook.params, bind_store]
  cases harray : s.array? v with
  | none => exact hs.grows
  | some items =>
    rw [harray] at h
    exact mapM_asExpression_yields hs h

theorem hashEntries_yields {entries : Entries} {done : List (String × Value)}
    (hentries : ∀ e ∈ entries, s.Data e.2) (hdone : ∀ e ∈ done, s.Data e.2) :
    (hashEntries entries done).Yields s (fun named t => s.Grows base t ∧ ∀ e ∈ named, t.Data e.2)
      (s.Grows base) := by
  induction entries generalizing s done with
  | nil => exact ⟨hs.grows, hdone⟩
  | cons entry rest ih =>
    obtain ⟨k, v⟩ := entry
    refine bind ((text_yields k s).mono ?_ ?_)
    · rintro key _ rfl
      refine bind
        ((asExpression_yields hs (hentries _ List.mem_cons_self)).mono ?_ fun _ h => h)
      rintro e t ⟨hst, he⟩
      refine (ih hst.orderly (fun e he => ?_) (Assoc.snd_of_mem_insert he fun e he => ?_)).mono
        (fun named u h => ⟨hst.trans h.1, h.2⟩) fun u h => hst.trans h
      · exact (hentries e (List.mem_cons_of_mem _ he)).mono hst.extend.keeps
      · exact (hdone e he).mono hst.extend.keeps
    · rintro _ rfl
      exact hs.grows

omit hs in
theorem hash_apply (v : Value) (s : Store) : Hook.hash v s = (match v, s.entries? v with
      | .null, _ => return []
      | _, some entries => do
        let named ← hashEntries entries []
        return named.map fun (k, e) => (.str k, e)
      | v, none => failShape .hookHash v : Act Entries) s := rfl

theorem hash_yields (h : ∀ w ∈ s.valuesOf v, s.Data w) : (Hook.hash v).Yields s
      (fun entries t => s.Grows base t ∧ ∀ e ∈ entries, (∃ key, e.1 = .str key) ∧ t.Data e.2)
      (s.Grows base) := by
  rw [Yields, hash_apply, ← Yields]
  split
  · exact ⟨hs.grows, by simp⟩
  · next entries _ hmap =>
    have hvalues : ∀ e ∈ entries, s.Data e.2 := by
      intro e he
      refine h e.2 ?_
      rw [valuesOf, hmap]
      exact List.mem_map_of_mem he
    refine bind ((hashEntries_yields hs hvalues (by simp)).mono ?_ fun _ h => h)
    rintro named t ⟨hst, hnamed⟩
    refine ⟨hst, fun e he => ?_⟩
    obtain ⟨⟨key, w⟩, hmem, rfl⟩ := List.mem_map.1 he
    exact ⟨⟨key, rfl⟩, hnamed _ hmem⟩
  · exact hs.grows

omit hs in
theorem helperName_yields (hook : Hook) (v : Value) (s : Store) :
    (helperName hook v).Yields s (fun _ t => t = s) (fun t => t = s) := by
  cases v <;> rfl

omit hs in
/-- The arguments of a helper: parameters and named arguments hold data only. -/
structure HoldsData (s : Store) (params hash : Value) : Prop where
  params : ∀ v ∈ s.itemsOf params, s.Data v
  valid : s.Valid hash
  hash : ∀ v ∈ s.valuesOf hash, s.Data v

omit hs in
/-- The helper of this name with its parameters and named arguments. -/
def helperNamed (params hash : Value) (name : String) : Act HelperCall := do
  let params ← Hook.params params
  let hash ← Hook.hash hash
  return ⟨.str name, .own params, .own hash⟩

theorem helperNamed_yields (h : HoldsData s params hash) (name : String) :
    (helperNamed params hash name).Yields s (fun c t => s.Grows base t ∧ c.Sound t.Data)
      (s.Grows base) := by
  refine bind ((params_yields hs h.params).mono ?_ fun _ h => h)
  rintro es t ⟨hst, hes⟩
  have hvalues : ∀ v ∈ t.valuesOf hash, t.Data v := by
    rw [valuesOf_of_extends hst.extend h.valid]
    exact fun v hv => (h.hash v hv).mono hst.extend.keeps
  refine bind ((hash_yields hst.orderly hvalues).mono ?_ fun _ h => hst.trans h)
  rintro entries u ⟨htu, hentries⟩
  exact ⟨hst.trans htu, ⟨name, rfl⟩,
    ⟨es, rfl, fun e he => (hes e he).mono htu.extend.keeps⟩, entries, rfl, hentries⟩

theorem helperCall_yields (hook : Hook) (name : Value) (h : HoldsData s params hash) :
    (helperCall hook name params hash).Yields s (fun c t => s.Grows base t ∧ c.Sound t.Data)
      (s.Grows base) := by
  refine bind ((helperName_yields hook name s).mono ?_ ?_)
  · rintro name _ rfl
    exact helperNamed_yields hs h name
  · rintro _ rfl
    exact hs.grows

end Arguments

theorem asPlaceholder?_eq_some (h : s.asPlaceholder? v = some id) :
    v = .object id ∧ ∃ n, s.node? id = some n ∧ n.shape.kind = .placeholder := by
  unfold asPlaceholder? at h
  split at h
  · next i morph parent children hnode =>
    cases h
    obtain ⟨hv, hn⟩ := asNode?_eq_some_iff.1 hnode
    exact ⟨hv, _, hn, rfl⟩
  · cases h

theorem expectSlot_yields (hook : Hook) (v : Value) (s : Store) : (expectSlot hook v).Yields s
      (fun id t => t = s ∧ v = .object id ∧ ∃ n, s.node? id = some n ∧ n.shape.kind = .placeholder)
      (fun t => t = s) := by
  rw [Yields, expectSlot, bind_store]
  cases hslot : s.asPlaceholder? v with
  | none => rfl
  | some id => exact ⟨rfl, asPlaceholder?_eq_some hslot⟩

end Hook

namespace Store

variable {base : Nat}

/-- A value that a run on the objects from `base` on may use: if it is an object it is there, and if
it is a part of the tree it is one of those objects. -/
def Own (s : Store) (base : Nat) (v : Value) : Prop :=
  ∀ id, v = .object id →
    ∃ o, s.object? id = some o ∧ (isPartKind (Method.kindOf? o) = true → base ≤ id.index)

theorem Own.valid (h : s.Own base v) : s.Valid v := by
  intro id hid
  obtain ⟨o, ho, -⟩ := h id hid
  exact ⟨o, ho⟩

theorem Own.le_of_node? (h : s.Own base (.object id)) (hn : s.node? id = some n) :
    base ≤ id.index := by
  obtain ⟨o, ho, hle⟩ := h id rfl
  refine hle ?_
  rw [node?, ho] at hn
  cases o with
  | node n added => rfl
  | _ => cases hn

theorem Own.mono (h : s.Own base v) (hst : s.Extends t) : t.Own base v := by
  intro id hid
  obtain ⟨o, ho, hle⟩ := h id hid
  exact ⟨o, hst id o ho, hle⟩

/-- A node can get a place below another one: it has none, and the other one is not below it. -/
structure Placeable (s : Store) (parent child : ObjectId) : Prop where
  free : ∀ q, .object child ∉ s.children q
  above : ¬ Relation.ReflTransGen s.Edge child parent

theorem Orderly.advances (hs : s.Orderly base) : s.Advances base s :=
  ⟨hs, leaves_refl base s⟩

end Store

theorem Act.Refuses.after {α : Type} {x : Act α} (h : x.Refuses s) : x.after s = s := by
  obtain ⟨fault, h⟩ := h
  exact after_of_error h

theorem Act.after_bind_return {α β : Type} (x : Act α) (b : β) (s : Store) :
    (x >>= fun _ => return b).after s = x.after s := by
  unfold after
  cases hx : x s with
  | ok a t => rw [bind_of_ok hx]; rfl
  | error fault t => rw [bind_of_error hx]

/-! ### Calls of a document -/

namespace Document

open Store

variable {base : Nat} {s : Store}

section Documents

variable (hs : s.Orderly base)

include hs

theorem appendChild_advances {parent child : Value} (hparent : s.Own base parent)
    (hchild : s.Own base child)
    (hplace : ∀ p c, parent = .object p → child = .object c → s.Placeable p c) :
    s.Advances base ((appendChild parent child).after s) := by
  obtain h | ⟨p, n, items, c, m, rfl, hn, hitems, rfl, hm, h⟩ :=
    appendChild_cases hs.sound.owned parent child
  · rw [h.after]
    exact hs.advances
  · have hle := hchild.le_of_node? hm
    have hplaceable := hplace p c rfl rfl
    rw [after_of_ok h]
    exact ⟨hs.append hn hitems hm hplaceable.free hplaceable.above fun _ => hle,
      (leaves_update (hparent.le_of_node? hn) s _).trans (leaves_update hle _ _)⟩

theorem setAttribute_advances {element : Value} (helement : s.Own base element)
    (name value : Value) : s.Advances base ((setAttribute element name value).after s) := by
  obtain h | ⟨e, entries, text, he, hentries, h⟩ :=
    setAttribute_cases hs.sound.owned element name value
  · rw [h.after]
    exact hs.advances
  · obtain ⟨n, tag, ns, rfl, hn, -⟩ := element?_eq_some_iff.1 he
    rw [after_of_ok h]
    exact ⟨hs.setAttribute he hentries name text, leaves_update (helement.le_of_node? hn) s _⟩

theorem createAttrMorph_advances (hbase : base ≤ s.objects.size)
    {element : Value} (helement : s.Own base element) (name : Value) :
    s.Advances base ((createAttrMorph element name).after s) := by
  obtain h | ⟨e, items, he, hitems, h⟩ := createAttrMorph_cases hs.sound.owned element name
  · rw [h.after]
    exact hs.advances
  · obtain ⟨n, tag, ns, rfl, hn, -⟩ := element?_eq_some_iff.1 he
    rw [after_of_ok h]
    exact ⟨hs.openBound he hitems name, ((s.extends_push _).leaves hbase).trans
      (leaves_update (helement.le_of_node? hn) _ _)⟩

theorem createElementMorph_advances (hbase : base ≤ s.objects.size)
    (element : Value) : s.Advances base ((createElementMorph element).after s) := by
  obtain h | h := createElementMorph_cases element s
  · rw [h.after]
    exact hs.advances
  · rw [after_of_ok h]
    refine ⟨hs.push_data ⟨rfl, ?_⟩, (s.extends_push _).leaves hbase⟩
    rintro e he
    cases he

theorem createMorphAt_advances (hbase : base ≤ s.objects.size) {parent : Value}
    (hparent : s.Own base parent) (first last : Value) :
    s.Advances base ((createMorphAt parent first last).after s) := by
  obtain h | ⟨p, n, items, i, j, rfl, hn, hitems, hrange, h⟩ :=
    createMorphAt_cases hs.sound.owned parent first last
  · rw [h.after]
    exact hs.advances
  · rw [after_of_ok h]
    refine ⟨(hs.splice hn hitems (range?_eq_some hrange).1 hbase).of_objects_eq rfl, ?_⟩
    have hpush := (s.extends_push (.node ⟨.placeholder .null (.object p), .own []⟩ [])).leaves hbase
    have hupdate := leaves_update (hparent.le_of_node? hn)
      (s.push (.node ⟨.placeholder .null (.object p), .own []⟩ []))
      (Object.mapNode (withChildren (Container.spliced items i j (.object s.next))))
    exact ⟨(hpush.trans hupdate).size, (hpush.trans hupdate).same⟩

theorem newNode_advances (hbase : base ≤ s.objects.size) {shape : Shape}
    (hshape : ∀ t : Store, shape.Sound t) (hbound : shape.bound = [])
    (hplaceholder : shape.kind ≠ .placeholder) : s.Advances base ((newNode shape).after s) :=
  ⟨hs.push_node hshape hbound hplaceholder, (s.extends_push _).leaves hbase⟩

/-- **A call of a document** goes on to an orderly store. -/
theorem call_advances (hbase : base ≤ s.objects.size) {document : ObjectId}
    (hdocument : base ≤ document.index) {method : Method} {args : List Value}
    (hargs : ∀ v ∈ args, s.Own base v)
    (hplace : method = .appendChild → ∀ p c, args = [.object p, .object c] → s.Placeable p c) :
    s.Advances base ((call document method args).after s) := by
  have helement : ∀ tag ns, s.Advances base ((createElement document tag ns).after s) := by
    intro tag ns
    refine newNode_advances hs hbase (fun _ => ?_) rfl (by simp [Shape.kind])
    exact ⟨⟨[], rfl, by simp⟩, ⟨[], rfl, by simp⟩, [], rfl, by simp⟩
  unfold call
  split
  · exact newNode_advances hs hbase (fun _ => trivial) rfl (by simp [Shape.kind])
  · exact helement _ _
  · exact helement _ _
  · exact newNode_advances hs hbase (fun _ => trivial) rfl (by simp [Shape.kind])
  · exact newNode_advances hs hbase (fun _ => trivial) rfl (by simp [Shape.kind])
  · next parent child =>
    refine appendChild_advances hs (hargs _ (by simp)) (hargs _ (by simp)) ?_
    rintro p c rfl rfl
    exact hplace rfl p c rfl
  · rw [after_bind_return]
    exact setAttribute_advances hs (hargs _ (by simp)) _ _
  · rw [after_bind_return]
    exact setAttribute_advances hs (hargs _ (by simp)) _ _
  · rw [← childAt_steps (R := Eq)]
    exact hs.advances
  · rw [← childAtIndex_steps (R := Eq)]
    exact hs.advances
  · exact createMorphAt_advances hs hbase (hargs _ (by simp)) _ _
  · exact createMorphAt_advances hs hbase (hargs _ (by simp)) _ _
  · exact createMorphAt_advances hs hbase (hargs _ (by simp)) _ _
  · exact createMorphAt_advances hs hbase (hargs _ (by simp)) _ _
  · exact createAttrMorph_advances hs hbase (hargs _ (by simp)) _
  · exact createAttrMorph_advances hs hbase (hargs _ (by simp)) _
  · exact createAttrMorph_advances hs hbase (hargs _ (by simp)) _
  · exact createAttrMorph_advances hs hbase (hargs _ (by simp)) _
  · exact createElementMorph_advances hs hbase _
  · exact createElementMorph_advances hs hbase _
  · exact hs.advances
  · exact hs.advances
  · rw [after_bind_return, after_of_ok (setNamespace_apply _ _ s)]
    exact ⟨hs.setNamespace _ _, leaves_update hdocument s _⟩
  · exact hs.advances
  · exact hs.advances

end Documents

end Document

/-! ### Runs inside runs -/

/-- Two actions in turn, where the second one may depend on how the first one went. -/
theorem Act.Yields.bind_eq {α β : Type} {x : Act α} {f : α → Act β} {post : α → Store → Prop}
    {failed : Store → Prop} {post' : β → Store → Prop} {failed' : Store → Prop}
    (h : x.Yields s post failed)
    (hok : ∀ a t, x s = .ok a t → post a t → (f a).Yields t post' failed')
    (herror : ∀ t, failed t → failed' t) : (x >>= f).Yields s post' failed' := by
  unfold Yields at h
  cases hx : x s with
  | ok a t =>
    rw [hx] at h
    rw [Yields, bind_of_ok hx]
    exact hok a t hx h
  | error fault t =>
    rw [hx] at h
    rw [Yields, bind_of_error hx]
    exact herror t h

namespace Store

variable {base : Nat}

theorem node?_eq_none_of_size_le (h : s.objects.size ≤ id.index) : s.node? id = none := by
  rw [node?, object?, Array.getElem?_eq_none h]
  rfl

theorem index_lt_of_node? (h : s.node? id = some n) : id.index < s.objects.size := by
  obtain ⟨o, ho, -⟩ := Option.bind_eq_some_iff.1 h
  exact index_lt_of_object? ho

/-- From an orderly store a new run can start that works on new objects only. -/
theorem Orderly.restart (hs : s.Orderly base) : s.Orderly s.objects.size := by
  refine { hs with closed := ?_ }
  rintro a b ha (h | h)
  · rw [children, node?_eq_none_of_size_le ha] at h
    cases h
  · rw [branches, node?_eq_none_of_size_le ha] at h
    cases h

theorem node?_of_extends (hst : s.Extends t) (hid : id.index < s.objects.size) :
    t.node? id = s.node? id := by
  obtain ⟨o, ho⟩ := object?_eq_some_iff_lt.2 hid
  rw [node?, node?, ho, hst id o ho]

theorem branches_of_extends (hs : s.Sound) (hst : s.Extends t) (hid : id.index < s.objects.size) :
    t.branches id = s.branches id := by
  rw [branches, branches, node?_of_extends hst hid]
  cases h : (s.node? id).bind Node.morphId? with
  | none => rfl
  | some m =>
    obtain ⟨⟨shape, children⟩, hn, hm⟩ := Option.bind_eq_some_iff.1 h
    have hshape := (hs.node id _ hn).shape
    cases shape with
    | placeholder morph parent =>
      cases morph with
      | object i =>
        cases hm
        obtain hnull | ⟨kind, j, o, hj, ho, -⟩ := hshape
        · cases hnull
        · cases hj
          simp only [Option.bind_some, morph?, ho, hst _ o ho]
      | _ => cases hm
    | _ => cases hm

/-- When a run on new objects has ended, the run around it goes on. -/
theorem Orderly.resume (hs : s.Orderly base) (hbase : base ≤ s.objects.size)
    (h : s.Advances s.objects.size t) : t.Orderly base := by
  have hst := h.leaves.extends
  refine { h.orderly with closed := fun a b ha hab => ?_ }
  by_cases hnew : s.objects.size ≤ a.index
  · exact hbase.trans (h.orderly.closed a b hnew hab)
  · have hold : a.index < s.objects.size := by omega
    refine hs.closed a b ha ?_
    rw [Edge, children, node?_of_extends hst hold, ← children,
      branches_of_extends hs.sound hst hold] at hab
    exact hab

theorem Orderly.not_reaches (hs : s.Orderly base) {a c : ObjectId} (ha : base ≤ a.index)
    (hc : c.index < base) : ¬ Relation.ReflTransGen s.Edge a c := by
  intro h
  have hle : base ≤ c.index := by
    induction h with
    | refl => exact ha
    | tail _ hstep ih => exact hs.closed _ _ (by omega) hstep
  omega

/-- A store to which a run on new objects has led. -/
structure Renders (s t : Store) : Prop where
  extend : s.Extends t
  orderly : ∀ b, b ≤ s.objects.size → s.Orderly b → t.Orderly b

theorem renders_refl (s : Store) : s.Renders s := ⟨s.extends_refl, fun _ _ h => h⟩

theorem Renders.grows (h : s.Renders t) (hbase : base ≤ s.objects.size) (hs : s.Orderly base) :
    s.Grows base t := ⟨h.orderly base hbase hs, h.extend⟩

theorem Advances.renders (h : s.Advances s.objects.size t) : s.Renders t :=
  ⟨h.leaves.extends, fun _ hb hs => hs.resume hb h⟩

end Store

/-! ### Calls of a hook -/

namespace Hook

open Store

/-- The placeholder and the helper of a block, before its branches. -/
def prepareBlock (slot name params hash inverse : Value) : Act (ObjectId × HelperCall) := do
  let slot ← expectSlot .block slot
  let name ← helperName .block name
  note (.block name (inverse != .null))
  let c ← helperNamed params hash name
  return (slot, c)

/-- A block has a template recovered in a store: the primary branch when its helper has been read,
the other branch when the primary one is there. -/
inductive Asks (m : Machine) (slot name params hash template inverse : Value) (s : Store) :
    Value → Store → Prop
  | primary {found : ObjectId × HelperCall} {u : Store} (htemplate : template ≠ .null)
      (hprepare : prepareBlock slot name params hash inverse s = .ok found u) :
      Asks m slot name params hash template inverse s template u
  | alternate {found : ObjectId × HelperCall} {u v : Store} {root : Value}
      (htemplate : template ≠ .null)
      (hprepare : prepareBlock slot name params hash inverse s = .ok found u)
      (hprimary : m.recover template u = .ok root v) (hinverse : inverse ≠ .null) :
      Asks m slot name params hash template inverse s inverse v

/-- A hook has a template recovered in a store. -/
def asks (m : Machine) (s : Store) : Hook → List Value → Value → Store → Prop
  | .block, [slot, name, params, hash, template] =>
    Asks m slot name params hash template .null s
  | .block, [slot, name, params, hash, template, inverse] =>
    Asks m slot name params hash template inverse s
  | _, _ => fun _ _ => False

/-- The values that a hook takes over into a part of the tree or an expression. -/
def given (s : Store) : Hook → List Value → List Value
  | .concat, [params] => s.itemsOf params
  | .subexpr, [_, params, hash] => s.itemsOf params ++ s.valuesOf hash
  | .inline, [_, _, params, hash] => s.itemsOf params ++ s.valuesOf hash
  | .attribute, [_, _, _, value] => [value]
  | .element, [_, _, params, hash] => s.itemsOf params ++ s.valuesOf hash
  | .content, [_, v] => [v]
  | .block, _ :: _ :: params :: hash :: _ => s.itemsOf params ++ s.valuesOf hash
  | _, _ => []

/-- A template is recovered by a run of its own: it works on new objects and its root is one of
them. -/
structure OwnRender (m : Machine) (template : Value) (u : Store) : Prop where
  advances : u.Advances u.objects.size ((m.recover template).after u)
  root : ∀ v t, m.recover template u = .ok v t →
    t.IsNode v ∧ ∀ id, v = .object id → u.objects.size ≤ id.index

theorem bindBlock_null (m : Machine) (slot name params hash inverse : Value) (s : Store) :
    (bindBlock m slot name params hash .null inverse).after s = s := by
  refine after (P := fun t => t = s) ?_
  refine bind ((expectSlot_yields .block slot s).mono ?_ fun _ h => h)
  rintro id _ ⟨rfl, -⟩
  exact bind ((helperName_yields .block name _).mono (fun _ _ h => h) fun _ h => h)

theorem bindBlock_eq (m : Machine) (slot name params hash : Value) (htemplate : template ≠ .null)
    (inverse : Value) :
    bindBlock m slot name params hash template inverse = (do
      let found ← prepareBlock slot name params hash inverse
      let primary ← m.recover template
      let alternate ← branch? m inverse
      bind found.1 (.block found.2 primary alternate)) := by
  unfold bindBlock prepareBlock helperNamed
  simp only [bind_assoc, pure_bind]

variable {base : Nat}

theorem prepareBlock_yields (hs : s.Orderly base) (slot name : Value) (h : HoldsData s params hash)
    (inverse : Value) :
    (prepareBlock slot name params hash inverse).Yields s
      (fun found t => s.Grows base t ∧ found.2.Sound t.Data ∧ slot = .object found.1 ∧
        ∃ n, s.node? found.1 = some n ∧ n.shape.kind = .placeholder)
      (s.Grows base) := by
  refine bind ((expectSlot_yields .block slot s).mono ?_ ?_)
  · rintro id _ ⟨rfl, hslot⟩
    refine bind ((helperName_yields .block name _).mono ?_ ?_)
    · rintro name s rfl
      set t := s.noted (.block name (inverse != .null)) with ht
      have hst : s.Grows base t := ⟨hs.of_objects_eq rfl, extends_of_objects_eq rfl⟩
      have hargs : HoldsData t params hash := ⟨h.params, h.valid, h.hash⟩
      refine bind (x := note (.block name (inverse != .null))) ?_
      refine bind (s := t)
        ((helperNamed_yields hst.orderly hargs name).mono ?_ fun _ h => hst.trans h)
      rintro c u ⟨htu, hc⟩
      exact ⟨hst.trans htu, hc, hslot⟩
    · rintro _ rfl
      exact hs.grows
  · rintro _ rfl
    exact hs.grows

/-- Recovering a template by a run of its own. -/
theorem OwnRender.yields (h : OwnRender m template u) : (m.recover template).Yields u
      (fun root t => u.Renders t ∧ t.IsNode root ∧ ∀ id, root = .object id → u.objects.size ≤ id.index)
      u.Renders := by
  have hrenders := h.advances.renders
  unfold Act.after at hrenders
  rw [Act.Yields]
  cases hx : m.recover template u with
  | ok root t =>
    rw [hx] at hrenders
    exact ⟨hrenders, h.root root t hx⟩
  | error fault t =>
    rw [hx] at hrenders
    exact hrenders

theorem branch?_of_ne_null (h : template ≠ .null) : branch? m template = m.recover template := by
  cases template with
  | null => exact absurd rfl h
  | _ => rfl

theorem branch?_yields (h : template ≠ .null → OwnRender m template u) :
    (branch? m template).Yields u
      (fun root t => u.Renders t ∧ (root = .null ∨ t.IsNode root) ∧
        ∀ id, root = .object id → u.objects.size ≤ id.index)
      u.Renders := by
  by_cases hnull : template = .null
  · subst hnull
    exact ⟨u.renders_refl, .inl rfl, fun id hid => by cases hid⟩
  · rw [branch?_of_ne_null hnull]
    exact (h hnull).yields.mono (fun root t ht => ⟨ht.1, .inr ht.2.1, ht.2.2⟩) fun _ h => h

theorem bind_advances (hst : s.Grows base t) (hbase : base ≤ s.objects.size) {slot : ObjectId}
    (hslot : base ≤ slot.index) (hn : t.node? slot = some n) (hkind : n.shape.kind = .placeholder)
    {m : Morph} (hm : m.Sound t) (howner : m.owner? = none)
    (hreach : ∀ b, .object b ∈ m.branches → ¬ Relation.ReflTransGen t.Edge b slot)
    (hnew : ∀ b, .object b ∈ m.branches → base ≤ b.index) :
    (bind slot m).Yields t (fun _ => s.Advances base) (s.Advances base) := by
  rw [Yields, bind_apply]
  refine ⟨hst.orderly.bind hn hkind hm howner hreach fun b hb _ => hnew b hb, ?_⟩
  exact ((hst.extend.trans (t.extends_push _)).leaves hbase).trans (leaves_update hslot _ _)

/-- **A block** goes on to an orderly store if its branches are recovered by runs of their own. -/
theorem bindBlock_advances (hs : s.Orderly base) (hbase : base ≤ s.objects.size)
    {slot name inverse : Value} (hslot : s.Own base slot) (hdata : HoldsData s params hash)
    (hrender : ∀ branch u, Asks m slot name params hash template inverse s branch u →
      u.Orderly u.objects.size → OwnRender m branch u) :
    s.Advances base ((bindBlock m slot name params hash template inverse).after s) := by
  by_cases htemplate : template = .null
  · subst htemplate
    rw [bindBlock_null]
    exact hs.advances
  rw [bindBlock_eq m slot name params hash htemplate inverse]
  refine after ((prepareBlock_yields hs slot name hdata inverse).bind_eq ?_
    fun t h => h.advances hbase)
  rintro ⟨id, c⟩ u hfound ⟨hsu, hc, rfl, n, hn, hkind⟩
  have hid := hslot.le_of_node? hn
  have hu := hbase.trans hsu.extend.size_le
  -- the branches are new objects, and nothing that is new leads to the placeholder
  refine (hrender template u (.primary htemplate hfound) hsu.orderly.restart).yields.bind_eq ?_
    fun v huv => (hsu.trans (huv.grows hu hsu.orderly)).advances hbase
  rintro root v hroot ⟨huv, hnode, hnew⟩
  have hsv := hsu.trans (huv.grows hu hsu.orderly)
  have hv := hu.trans huv.extend.size_le
  refine (branch?_yields fun hinverse =>
    hrender inverse v (.alternate htemplate hfound hroot hinverse) hsv.orderly.restart).bind_eq ?_
    fun w hvw => (hsv.trans (hvw.grows hv hsv.orderly)).advances hbase
  rintro other w - ⟨hvw, hother, hnew'⟩
  have hsw := hsv.trans (hvw.grows hv hsv.orderly)
  have hw : w.Orderly u.objects.size :=
    hvw.orderly _ huv.extend.size_le (huv.orderly _ le_rfl hsu.orderly.restart)
  have hsound : (Morph.block c root other).Sound w :=
    ⟨hc.mono fun x hx => (hx.mono huv.extend.keeps).mono hvw.extend.keeps,
      hnode.mono hvw.extend.keeps, hother⟩
  have hbranches : ∀ b, .object b ∈ (Morph.block c root other).branches →
      u.objects.size ≤ b.index := by
    intro b hb
    rcases List.mem_cons.1 hb with hb | hb
    · exact hnew b hb.symm
    · exact huv.extend.size_le.trans (hnew' b (List.mem_singleton.1 hb).symm)
  have hlt : id.index < u.objects.size := (index_lt_of_node? hn).trans_le hsu.extend.size_le
  have hn' : w.node? id = some n := by
    rw [node?_of_extends hsw.extend (index_lt_of_node? hn), hn]
  exact bind_advances hsw hbase hid hn' hkind hsound rfl
    (fun b hb => hw.not_reaches (hbranches b hb) hlt) fun b hb => hu.trans (hbranches b hb)

/-- Binding a placeholder to a morph without branches. -/
theorem bindLeaf_advances (hst : s.Grows base t) (hbase : base ≤ s.objects.size) (hook : Hook)
    {slot : Value} (hslot : t.Own base slot) {m : Morph} (hm : m.Sound t) (howner : m.owner? = none)
    (hbranches : m.branches = []) :
    (do
      let slot ← expectSlot hook slot
      bind slot m
      return Value.null : Act Value).Yields t (fun _ => s.Advances base) (s.Advances base) := by
  refine (expectSlot_yields hook slot t).bind_eq ?_ ?_
  · rintro id _ - ⟨rfl, rfl, n, hn, hkind⟩
    refine (bind_advances hst hbase (hslot.le_of_node? hn) hn hkind hm howner ?_ ?_).bind_eq
      (fun _ _ _ h => h) fun _ h => h
    · simp [hbranches]
    · simp [hbranches]
  · rintro _ rfl
    exact hst.advances hbase

theorem data_append (h : ∀ v ∈ s.itemsOf params ++ s.valuesOf hash, s.Data v)
    (hvalid : s.Valid hash) : HoldsData s params hash :=
  ⟨fun v hv => h v (List.mem_append_left _ hv), hvalid, fun v hv => h v (List.mem_append_right _ hv)⟩

theorem new_expression_advances (hst : s.Grows base t) (hbase : base ≤ s.objects.size)
    {e : Expression} (he : e.Sound t t.next) :
    (new (.expression e)).Yields t (fun _ => s.Advances base) (s.Advances base) := by
  have hadmits : t.Admits (.expression e) := ⟨rfl, fun e' he' => by cases he'; exact he⟩
  exact (hst.trans ⟨hst.orderly.push_data hadmits, t.extends_push _⟩).advances hbase

theorem asAttribute?_eq_some (h : s.asAttribute? v = some id) :
    v = .object id ∧ ∃ o, s.object? id = some o ∧ isPartKind (Method.kindOf? o) = true := by
  unfold asAttribute? at h
  split at h
  · next i key value owner added hobject =>
    cases h
    cases v with
    | object j =>
      obtain ⟨o, ho, heq⟩ := Option.map_eq_some_iff.1 hobject
      cases heq
      exact ⟨rfl, _, ho, rfl⟩
    | _ => cases hobject
  · cases h

/-- A hook gives a bound attribute of the run its value. -/
theorem setValue_advances (hs : s.Orderly base) (hbase : base ≤ s.objects.size)
    {target value : Value} (htarget : s.Own base target) (hvalue : s.Data value) (m : Machine)
    (x y : Value) : s.Advances base ((call m (.attribute) [target, x, y, value]).after s) := by
  unfold Act.after call
  dsimp only
  rw [Act.bind_store, ← Act.after]
  cases hid : s.asAttribute? target with
  | none => exact hs.advances
  | some id =>
    obtain ⟨rfl, o, ho, hpart⟩ := asAttribute?_eq_some hid
    obtain ⟨o', ho', hle⟩ := htarget id rfl
    rw [ho] at ho'
    cases ho'
    refine after ((asExpression_yields hs hvalue).bind_eq ?_ fun t h => h.advances hbase)
    rintro e t - ⟨hst, he⟩
    rw [Yields, bind_of_ok (setValue_apply id e t)]
    exact ⟨hst.orderly.setValue id he, (hst.extend.leaves hbase).trans
      (leaves_update (hle hpart) _ _)⟩

/-- A hook adds a modifier to an element of the run. -/
theorem addModifier_advances (hs : s.Orderly base) (hbase : base ≤ s.objects.size) {target : Value}
    (htarget : s.Own base target) (hdata : HoldsData s params hash) (m : Machine) (name : Value) :
    s.Advances base ((call m .element [target, name, params, hash]).after s) := by
  unfold Act.after call
  dsimp only
  rw [Act.bind_store, ← Act.after]
  cases he : element? s target with
  | none => exact hs.advances
  | some e =>
    obtain ⟨items, hitems⟩ := (owned_of_element? hs.sound.owned he).2.2
    refine after (.of_expectList ((helperCall_yields hs .element name hdata).bind_eq ?_
      fun t h => h.advances hbase) hs.advances)
    rintro c t - ⟨hst, hc⟩
    obtain ⟨n, tag, ns, rfl, hn, hshape⟩ := element?_eq_some_iff.1 he
    have hn' : t.node? e.id = some n := by
      rw [node?_of_extends hst.extend (index_lt_of_node? hn), hn]
    have he' := element?_eq_some_iff.2 ⟨n, tag, ns, rfl, hn', hshape⟩
    rw [Yields, bind_of_ok (addModifier_ok hitems c t)]
    exact ⟨hst.orderly.addModifier he' hitems hc,
      ((hst.extend.trans (t.extends_push _)).leaves hbase).trans
        (leaves_update (htarget.le_of_node? hn) _ _)⟩

/-- **A call of a hook** goes on to an orderly store if the values that it takes over are data and
the templates that it has recovered are recovered by runs of their own. -/
theorem call_advances (hs : s.Orderly base) (hbase : base ≤ s.objects.size) {hook : Hook}
    {args : List Value} (hargs : ∀ v ∈ args, s.Own base v)
    (hgiven : ∀ v ∈ hook.given s args, s.Data v)
    (hrender : ∀ branch u, hook.asks m s args branch u → u.Orderly u.objects.size →
      OwnRender m branch u) : s.Advances base ((call m hook args).after s) := by
  unfold call
  split
  · next path =>
    cases path with
    | str p =>
      exact (new_expression_advances hs.grows hbase (e := .path (.str p))
        (data_of_not_object (by simp))).after
    | _ => exact hs.advances
  · refine after ((params_yields hs hgiven).bind_eq ?_ fun t h => h.advances hbase)
    rintro parts t - ⟨hst, hparts⟩
    exact new_expression_advances hst hbase ⟨parts, rfl, fun v hv => (hparts v hv).older⟩
  · have hdata := data_append hgiven (hargs _ (by simp)).valid
    refine after ((helperCall_yields hs .subexpr _ hdata).bind_eq ?_
      fun t h => h.advances hbase)
    rintro c t - ⟨hst, hc⟩
    exact new_expression_advances hst hbase (HelperCall.Sound.mono hc fun v hv => hv.older)
  · have hdata := data_append hgiven (hargs _ (by simp)).valid
    refine after ((helperCall_yields hs .inline _ hdata).bind_eq ?_
      fun t h => h.advances hbase)
    rintro c t - ⟨hst, hc⟩
    exact bindLeaf_advances hst hbase .inline ((hargs _ (by simp)).mono hst.extend) hc rfl rfl
  · next target x y value =>
    exact setValue_advances hs hbase (hargs _ (by simp)) (hgiven _ (by simp [given])) m x y
  · exact addModifier_advances hs hbase (hargs _ (by simp))
      (data_append hgiven (hargs _ (by simp)).valid) m _
  · next slot v =>
    have hv : (Morph.content v).Sound s := hgiven v (by simp [given])
    exact (bindLeaf_advances hs.grows hbase .content (hargs _ (by simp)) hv rfl rfl).after
  · rw [after_bind_return]
    exact bindBlock_advances hs hbase (hargs _ (by simp))
      (data_append hgiven (hargs _ (by simp)).valid) hrender
  · rw [after_bind_return]
    exact bindBlock_advances hs hbase (hargs _ (by simp))
      (data_append hgiven (hargs _ (by simp)).valid) hrender
  · exact hs.advances

end Hook

/-! ### Runs -/

/-- **A run** from one store to another that may change the objects from `base` on. A document and
hooks are called on what belongs to the run, and a call may fail.

* A node is appended only where it can get a place.
* What a hook takes over is data, that is, neither a node nor a morph.
* A branch of a block is recovered by a run of its own that works on new objects, and its root is one
  of these. -/
inductive Run : Nat → Store → Store → Prop
  | start (base : Nat) (s : Store) : Run base s s
  /-- Something happens besides the objects, such as a note in the log. -/
  | quiet {base : Nat} {s t u : Store} : Run base s t → u.objects = t.objects → Run base s u
  /-- Data are made. -/
  | allocate {base : Nat} {s t : Store} {o : Object} : Run base s t → t.Admits o →
      Run base s (t.push o)
  | document {base : Nat} {s t : Store} (document : ObjectId) (method : Method)
      (args : List Value) : Run base s t → base ≤ document.index → (∀ v ∈ args, t.Own base v) →
      (method = .appendChild → ∀ p c, args = [.object p, .object c] → t.Placeable p c) →
      Run base s ((call document method args).after t)
  | hook {base : Nat} {s t : Store} (m : Machine) (hook : Hook) (args : List Value) : Run base s t →
      (∀ v ∈ args, t.Own base v) → (∀ v ∈ hook.given t args, t.Data v) →
      (∀ branch u, hook.asks m t args branch u →
        Run u.objects.size u ((m.recover branch).after u)) →
      (∀ branch u root v, hook.asks m t args branch u → m.recover branch u = .ok root v →
        v.IsNode root ∧ ∀ id, root = .object id → u.objects.size ≤ id.index) →
      Run base s ((Hook.call m hook args).after t)
  /-- The store inside a run of a branch. -/
  | inside {base : Nat} {s t u : Store} : Run base s t → Run t.objects.size t u → Run base s u

/-- **Every store of a run is orderly**, and what does not belong to the run is unchanged. -/
theorem Run.advances (h : Run base s t) (hbase : base ≤ s.objects.size) (hs : s.Orderly base) :
    s.Advances base t := by
  induction h with
  | start => exact hs.advances
  | quiet _ hobjects ih =>
    have h := ih hbase hs
    exact h.trans ((Store.Grows.mk (h.orderly.of_objects_eq hobjects)
      (Store.extends_of_objects_eq hobjects)).advances (hbase.trans h.leaves.size))
  | allocate _ hadmits ih =>
    have h := ih hbase hs
    exact h.trans ((Store.Grows.mk (h.orderly.push_data hadmits)
      (Store.extends_push _ _)).advances (hbase.trans h.leaves.size))
  | document document method args _ hdocument hargs hplace ih =>
    have h := ih hbase hs
    exact h.trans (call_advances h.orderly (hbase.trans h.leaves.size) hdocument hargs hplace)
  | hook m hook args _ hargs hgiven _ hroot ih ihrender =>
    have h := ih hbase hs
    refine h.trans (Hook.call_advances h.orderly (hbase.trans h.leaves.size) hargs hgiven
      fun branch u hasks hu => ?_)
    exact ⟨ihrender branch u hasks le_rfl hu, fun root v => hroot branch u root v hasks⟩
  | inside _ _ ih ihinside =>
    have h := ih hbase hs
    have hinside := ihinside le_rfl h.orderly.restart
    have hle := hbase.trans h.leaves.size
    exact h.trans ((hinside.renders.grows hle h.orderly).advances hle)

end TemplateRecovery
