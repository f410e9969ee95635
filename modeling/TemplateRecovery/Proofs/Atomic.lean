import TemplateRecovery.Machine.Call
import TemplateRecovery.Opcode.Template
import TemplateRecovery.Proofs.Run

/-!
# Bindings are atomic

A call of a hook, a statement or a method of a document that fails has changed nothing that was there
before: it may have made objects, but none that anything old leads to. A binding that succeeds has
changed one field of one object.

* `Store.GrowsBy` is a store with more objects of some kind, `Store.Changes` one in which one object
  has become another.
* `Act.MakesOnly` says that an action makes objects of some kind and changes none.
* `Act.Atomic` says that an action that fails has changed nothing.
* `binding_atomic` says what hooks, statements and methods do to a store.
-/

namespace TemplateRecovery

open Act Object Store Document Opcode Machine Hook

variable {o : Object} {id : ObjectId} {slot v : Value} {s : Store} {name : String}

namespace Store

/-! ### Stores with one change -/

/-- A later store in which nothing has changed and every new object is of some kind. -/
structure GrowsBy (P : Object → Prop) (s t : Store) : Prop where
  extend : s.Extends t
  made : ∀ id o, s.object? id = none → t.object? id = some o → P o

variable {P : Object → Prop} {s t u : Store}

theorem growsBy_refl (P : Object → Prop) (s : Store) : s.GrowsBy P s := by
  refine ⟨s.extends_refl, fun id o hnone ho => ?_⟩
  rw [hnone] at ho
  cases ho

theorem GrowsBy.trans (hst : s.GrowsBy P t) (htu : t.GrowsBy P u) : s.GrowsBy P u := by
  refine ⟨hst.extend.trans htu.extend, fun id o hnone ho => ?_⟩
  cases hid : t.object? id with
  | none => exact htu.made id o hid ho
  | some p =>
    have hp := htu.extend id p hid
    rw [ho] at hp
    cases hp
    exact hst.made id o hnone hid

theorem growsBy_push (ho : P o) (s : Store) : s.GrowsBy P (s.push o) := by
  refine ⟨s.extends_push o, fun id p hnone hp => ?_⟩
  rw [object?_push] at hp
  split_ifs at hp
  · cases hp
    exact ho
  · rw [hnone] at hp
    cases hp

theorem growsBy_of_objects_eq (P : Object → Prop) (h : t.objects = s.objects) : s.GrowsBy P t := by
  refine ⟨extends_of_objects_eq h, fun id o hnone ho => ?_⟩
  rw [object?_of_objects_eq h, hnone] at ho
  cases ho

/-- One object of a store has become another one; nothing else that was there has changed. -/
structure Changes (s t : Store) (id : ObjectId) (o o' : Object) : Prop where
  before : s.object? id = some o
  now : t.object? id = some o'
  others : ∀ x p, x ≠ id → s.object? x = some p → t.object? x = some p

theorem Changes.of_objects_eq {o' : Object} (h : u.Changes t id o o') (hs : u.objects = s.objects) :
    s.Changes t id o o' := by
  have heq : ∀ x, u.object? x = s.object? x := object?_of_objects_eq hs
  exact ⟨heq id ▸ h.before, h.now, fun x p hx hp => h.others x p hx ((heq x).trans hp)⟩

/-- An object is changed in a store that has only grown since. -/
theorem Extends.changes_update (hst : s.Extends t) (ho : s.object? id = some o)
    (f : Object → Object) : s.Changes (t.update id f) id o (f o) := by
  refine ⟨ho, ?_, fun x p hx hp => ?_⟩
  · rw [object?_update, if_pos rfl, hst id o ho]
    rfl
  · rw [object?_update, if_neg hx, hst x p hp]

theorem node?_eq_some {n : Node} (h : s.node? id = some n) :
    ∃ added, s.object? id = some (.node n added) := by
  obtain ⟨o, ho, hn⟩ := Option.bind_eq_some_iff.1 h
  cases o with
  | node n' added =>
    cases hn
    exact ⟨added, ho⟩
  | _ => cases hn

/-! ### What a binding changes -/

/-- A new morph of some kind has become the binding of a placeholder. -/
def BindsSlot (kind : MorphKind) (slot : Value) (s t : Store) : Prop :=
  ∃ id old parent children added morph m, slot = .object id ∧
    s.Changes t id (.node ⟨.placeholder old parent, children⟩ added)
      (.node ⟨.placeholder (.object morph) parent, children⟩ added) ∧
    s.object? morph = none ∧ t.object? morph = some (.morph m []) ∧ m.kind = kind

theorem BindsSlot.of_objects_eq {kind : MorphKind} (h : u.BindsSlot kind slot t)
    (hs : u.objects = s.objects) : s.BindsSlot kind slot t := by
  obtain ⟨id, old, parent, children, added, morph, m, hslot, hchange, hnone, hrest⟩ := h
  exact ⟨id, old, parent, children, added, morph, m, hslot, hchange.of_objects_eq hs,
    (object?_of_objects_eq hs morph).symm.trans hnone, hrest⟩

/-- An expression has become the value of a bound attribute. -/
def SetsValue (target : Value) (s t : Store) : Prop :=
  ∃ id key old owner added v, target = .object id ∧
    s.Changes t id (.morph (.attribute key old owner) added)
      (.morph (.attribute key v owner) added) ∧ t.isExpression v = true

/-- A new modifier stands at the end of the modifiers of an element: of its own list, or of the list
that it shares with others. -/
def AddsModifier (element : Value) (s t : Store) : Prop :=
  ∃ id tag ns attributes bound modifiers children added morph c, element = .object id ∧
    s.object? id =
      some (.node ⟨.element tag ns attributes bound modifiers, children⟩ added) ∧
    s.object? morph = none ∧ t.object? morph = some (.morph (.element c) []) ∧
    ((∃ items, modifiers = .own items ∧
        s.Changes t id (.node ⟨.element tag ns attributes bound modifiers, children⟩ added)
          (.node ⟨.element tag ns attributes bound (.own (items ++ [.object morph])), children⟩
            added)) ∨
      ∃ list items, modifiers = .shared (.object list) ∧
        s.Changes t list (.list items) (.list (items ++ [.object morph])))

end Store

/-! ### Actions that change nothing -/

namespace Act

variable {α β : Type} {P : Object → Prop}

theorem Yields.of_store {f : Store → Act β} {post : β → Store → Prop} {failed : Store → Prop}
    (h : (f s).Yields s post failed) : (store >>= f).Yields s post failed := h

instance : IsPreorder Store (GrowsBy P) where
  refl := growsBy_refl P
  trans _ _ _ := GrowsBy.trans

/-- An action makes objects of some kind and changes none, also if it fails. -/
abbrev MakesOnly (P : Object → Prop) (x : Act α) : Prop := x.Steps (GrowsBy P)

theorem Steps.yields {x : Act α} (h : x.MakesOnly P) (s : Store) :
    x.Yields s (fun _ => s.GrowsBy P) (s.GrowsBy P) := yields_of_after (h s)

theorem makesOnly_note (e : Event) : (note e).MakesOnly P :=
  fun _ => growsBy_of_objects_eq P rfl

theorem makesOnly_new (ho : P o) : (new o).MakesOnly P := growsBy_push ho

/-- An action that fails has changed nothing. -/
def Atomic (x : Act α) : Prop := ∀ s fault t, x s = .error fault t → s.Extends t

/-- An action does not fail. -/
def Total (x : Act α) : Prop := ∀ s, ∃ a t, x s = .ok a t

theorem Steps.atomic {x : Act α} (h : x.MakesOnly fun _ => True) : x.Atomic := by
  intro s fault t hx
  have hs := (h s).extend
  rw [after_of_error hx] at hs
  exact hs

theorem Total.atomic {x : Act α} (h : x.Total) : x.Atomic := by
  intro s fault t hx
  obtain ⟨a, u, hok⟩ := h s
  rw [hok] at hx
  cases hx

/-- What only makes objects can stand before an atomic action. -/
theorem Steps.bind_atomic {x : Act α} {f : α → Act β} (hx : x.MakesOnly fun _ => True)
    (hf : ∀ a, (f a).Atomic) : (x >>= f).Atomic := by
  intro s fault u h
  have hs := (hx s).extend
  cases hxs : x s with
  | ok a t =>
    rw [bind_of_ok hxs] at h
    rw [after_of_ok hxs] at hs
    exact hs.trans (hf a t fault u h)
  | error fault' t =>
    rw [bind_of_error hxs] at h
    rw [after_of_error hxs] at hs
    cases h
    exact hs

/-- What does not fail can stand after an atomic action. -/
theorem Atomic.bind_total {x : Act α} {f : α → Act β} (hx : x.Atomic) (hf : ∀ a, (f a).Total) :
    (x >>= f).Atomic := by
  intro s fault u h
  cases hxs : x s with
  | ok a t =>
    obtain ⟨b, v, hok⟩ := hf a t
    rw [bind_of_ok hxs, hok] at h
    cases h
  | error fault' t =>
    rw [bind_of_error hxs] at h
    cases h
    exact hx s _ _ hxs

theorem Total.bind {x : Act α} {f : α → Act β} (hx : x.Total) (hf : ∀ a, (f a).Total) :
    (x >>= f).Total := by
  intro s
  obtain ⟨a, t, hxs⟩ := hx s
  obtain ⟨b, u, hfa⟩ := hf a t
  exact ⟨b, u, (bind_of_ok hxs).trans hfa⟩

theorem total_pure (a : α) : (pure a : Act α).Total := fun s => ⟨a, s, rfl⟩

theorem total_note (e : Event) : (note e).Total := fun s => ⟨(), s.noted e, rfl⟩

theorem total_modify (id : ObjectId) (f : Object → Object) : (modify id f).Total :=
  fun s => ⟨(), s.update id f, rfl⟩

end Act

open Act

variable {P : Object → Prop} {R : Store → Store → Prop} [IsPreorder Store R]

/-! ### Methods of a document -/

namespace Container

theorem setItem_atomic (container key v : Value) : (setItem container key v).Atomic := by
  refine steps_store.bind_atomic fun s => ?_
  split
  · split_ifs
    · exact (total_modify _ _).atomic
    · exact (steps_fail _).atomic
  · exact (position_steps _ _ _).bind_atomic
      fun p => (total_modify _ _).atomic
  · exact (steps_fail _).atomic

theorem splice_atomic (container : Value) (first last : Nat) (v : Value) :
    (splice container first last v).Atomic := by
  refine steps_store.bind_atomic fun s => ?_
  split
  · exact (total_modify _ _).atomic
  · exact (steps_fail _).atomic

end Container

theorem Container.append_atomic (container v : Value) : (append container v).Atomic := by
  refine steps_store.bind_atomic fun s => ?_
  split
  · exact (total_modify _ _).atomic
  · exact (steps_noAttribute _ _).atomic

namespace Held

theorem append_atomic (h : Held (List Value)) (v : Value) {keep : Held (List Value) → Act Unit}
    (hkeep : ∀ h, (keep h).Total) : (h.append v keep).Atomic := by
  cases h with
  | own items => exact (hkeep _).atomic
  | shared w => exact Container.append_atomic w v

theorem splice_atomic (h : Held (List Value)) (first last : Nat) (v : Value)
    {keep : Held (List Value) → Act Unit} (hkeep : ∀ h, (keep h).Total) :
    (h.splice first last v keep).Atomic := by
  cases h with
  | own items => exact (hkeep _).atomic
  | shared w => exact Container.splice_atomic w first last v

theorem bind_atomic (h : Held Entries) (key v : Value) {keep : Held Entries → Act Unit}
    (hkeep : ∀ h, (keep h).Total) : (h.bind key v keep).Atomic := by
  cases h with
  | own entries =>
    refine steps_store.bind_atomic fun s => ?_
    split_ifs
    · exact (hkeep _).atomic
    · exact (steps_fail _).atomic
  | shared w => exact Container.setItem_atomic w key v

end Held

namespace Document

theorem modifyNode_total (id : ObjectId) (f : Node → Node) : (modifyNode id f).Total :=
  total_modify id _

theorem appendChild_atomic (parent child : Value) : (appendChild parent child).Atomic := by
  refine (expectNode_steps _ _).bind_atomic fun found => ?_
  refine (expectNode_steps _ _).bind_atomic fun found' => ?_
  refine (found.2.children.append_atomic child fun h => modifyNode_total _ _).bind_total fun _ => ?_
  exact (modifyNode_total _ _).bind fun _ => total_pure child

theorem setAttribute_atomic (element name value : Value) :
    (setAttribute element name value).Atomic := by
  refine (expectElement_steps _ _).bind_atomic fun e => ?_
  refine (steps_text value).bind_atomic fun text => ?_
  exact e.attributes.bind_atomic name (.str text) fun h => modifyNode_total _ _

theorem createMorphAt_atomic (parent first last : Value) :
    (createMorphAt parent first last).Atomic := by
  refine (expectNode_steps _ _).bind_atomic fun found => ?_
  refine found.2.children.length_steps.bind_atomic fun count => ?_
  split
  · refine (makesOnly_new trivial).bind_atomic fun slot => ?_
    refine (found.2.children.splice_atomic _ _ slot fun h => modifyNode_total _ _).bind_total
      fun _ => ?_
    exact (total_note _).bind fun _ => total_pure slot
  · exact (steps_view first).bind_atomic
      fun shown => (steps_failShape _ _).atomic

theorem createAttrMorph_atomic (element name : Value) : (createAttrMorph element name).Atomic := by
  refine (expectElement_steps _ _).bind_atomic fun e => ?_
  refine (makesOnly_new trivial).bind_atomic fun morph => ?_
  exact (e.bound.append_atomic morph fun h => modifyNode_total _ _).bind_total
    fun _ => total_pure morph

theorem createElementMorph_atomic (element : Value) : (createElementMorph element).Atomic :=
  (expectElement_steps _ _).bind_atomic
    fun _ => (makesOnly_new trivial).atomic

/-- **A method of a document** that fails has changed nothing. -/
theorem call_atomic (document : ObjectId) (method : Method) (args : List Value) :
    (call document method args).Atomic := by
  have hnew : ∀ shape, (newNode shape).Atomic :=
    fun shape => (makesOnly_new trivial).atomic
  have hpure : (pure Value.null : Act Value).Atomic := (total_pure _).atomic
  unfold call
  split
  · exact hnew _
  · exact steps_store.bind_atomic fun s => hnew _
  · exact steps_store.bind_atomic fun s => hnew _
  · exact hnew _
  · exact hnew _
  · exact appendChild_atomic _ _
  · exact (setAttribute_atomic _ _ _).bind_total fun _ => total_pure _
  · exact (setAttribute_atomic _ _ _).bind_total fun _ => total_pure _
  · exact (childAt_steps _ _).atomic
  · exact (childAtIndex_steps _ _).atomic
  iterate 4 exact createMorphAt_atomic _ _ _
  iterate 4 exact createAttrMorph_atomic _ _
  iterate 2 exact createElementMorph_atomic _
  iterate 2 exact hpure
  · exact ((total_modify document _).bind fun _ => total_pure _).atomic
  · exact hpure
  · exact (steps_fail _).atomic

end Document

/-! ### Reading arguments -/

/-- An object is an expression. -/
def Object.IsExpression (o : Object) : Prop := ∃ e, o = .expression e

namespace Act

theorem makesOnly_newExpression (e : Expression) :
    (new (.expression e)).MakesOnly IsExpression := makesOnly_new ⟨e, rfl⟩

/-- An action makes expressions only and gives one. -/
def Expresses (x : Act Value) : Prop :=
  ∀ s, x.Yields s (fun e t => s.GrowsBy IsExpression t ∧ t.isExpression e = true)
    (s.GrowsBy IsExpression)

theorem expresses_new (e : Expression) : (new (.expression e)).Expresses := by
  intro s
  refine ⟨growsBy_push ⟨e, rfl⟩ s, ?_⟩
  change (s.push (.expression e)).isExpression (.object s.next) = true
  rw [isExpression, asObject?_of_object? (object?_push_next s _)]

theorem Steps.bind_expresses {α : Type} {x : Act α} {f : α → Act Value}
    (hx : x.MakesOnly IsExpression) (hf : ∀ a, (f a).Expresses) : (x >>= f).Expresses := by
  intro s
  refine Yields.bind ((hx.yields s).mono (fun a t hst => ?_) fun _ h => h)
  exact (hf a t).mono (fun e u h => ⟨hst.trans h.1, h.2⟩) fun u h => hst.trans h

theorem Expresses.makesOnly {x : Act Value} (h : x.Expresses) : x.MakesOnly IsExpression :=
  fun s => Yields.after ((h s).mono (fun _ _ h => h.1) fun _ h => h)

end Act

namespace Hook

theorem asExpression_expresses (v : Value) : (asExpression v).Expresses := by
  intro s
  have heq : asExpression v s =
      (if s.isExpression v then return v else new (.expression (.literal v)) : Act Value) s := rfl
  rw [Yields, heq, ← Yields]
  split_ifs with h
  · exact ⟨growsBy_refl _ s, h⟩
  · exact expresses_new _ s

theorem params_makesOnly (v : Value) : (params v).MakesOnly IsExpression := by
  refine steps_store.bind fun s => ?_
  split
  · exact steps_mapM (fun v => (asExpression_expresses v).makesOnly) _
  · exact steps_failShape _ _

theorem hashEntries_makesOnly (entries : Entries) (done : List (String × Value)) :
    (hashEntries entries done).MakesOnly IsExpression := by
  induction entries generalizing done with
  | nil => exact steps_pure done
  | cons entry rest ih =>
    exact (steps_text entry.1).bind fun key =>
      (asExpression_expresses entry.2).makesOnly.bind fun e => ih _

theorem hash_makesOnly (v : Value) : (hash v).MakesOnly IsExpression := by
  refine steps_store.bind fun s => ?_
  split
  · exact steps_pure _
  · exact (hashEntries_makesOnly _ _).bind fun named => steps_pure _
  · exact steps_failShape _ _

theorem helperName_makesOnly (hook : Hook) (v : Value) : (helperName hook v).MakesOnly P := by
  unfold helperName
  split
  · exact steps_pure _
  · exact steps_failShape _ _

theorem helperNamed_makesOnly (params hash : Value) (name : String) :
    (helperNamed params hash name).MakesOnly IsExpression :=
  (params_makesOnly params).bind fun _ => (hash_makesOnly hash).bind fun _ => steps_pure _

theorem helperCall_makesOnly (hook : Hook) (name params hash : Value) :
    (helperCall hook name params hash).MakesOnly IsExpression :=
  (helperName_makesOnly hook name).bind fun name => helperNamed_makesOnly params hash name

end Hook

namespace Opcode

mutual

theorem allocate_expresses : ∀ e, (allocate e).Expresses
  | .literal _ => expresses_new _
  | .path _ => expresses_new _
  | .concat parts => (allocateAll_makesOnly parts).bind_expresses fun _ => expresses_new _
  | .subexpr _ ps h => (allocateAll_makesOnly ps).bind_expresses fun _ =>
      (allocateHash_makesOnly h).bind_expresses fun _ => expresses_new _

theorem allocateAll_makesOnly : ∀ es, (allocateAll es).MakesOnly IsExpression
  | [] => steps_pure _
  | e :: rest => (allocate_expresses e).makesOnly.bind fun _ =>
      (allocateAll_makesOnly rest).bind fun _ => steps_pure _

theorem allocateHash_makesOnly : ∀ h, (allocateHash h).MakesOnly IsExpression
  | [] => steps_pure _
  | (_, e) :: rest => (allocate_expresses e).makesOnly.bind fun _ =>
      (allocateHash_makesOnly rest).bind fun _ => steps_pure _

end

theorem paramOf_expresses (v : Value) : (paramOf v).Expresses :=
  steps_store.bind_expresses fun _ => (steps_lift _).bind_expresses allocate_expresses

theorem helperCall_makesOnly (tag : String) (name ps h : Value) :
    (helperCall tag name ps h).MakesOnly IsExpression := by
  have hparams : (paramsOf ps).MakesOnly IsExpression :=
    steps_store.bind fun _ => (steps_lift _).bind allocateAll_makesOnly
  have hhash : (hashOf h).MakesOnly IsExpression :=
    steps_store.bind fun _ => (steps_lift _).bind allocateHash_makesOnly
  exact steps_store.bind fun _ => (steps_lift _).bind fun _ => hparams.bind fun _ =>
    hhash.bind fun _ => steps_pure _

theorem childTemplate_makesOnly (templates index : Value) :
    (childTemplate templates index).MakesOnly P := by
  refine (Container.length_steps templates).bind fun count => ?_
  split
  · exact Container.item_steps _ _
  · exact steps_failShape _ _

end Opcode

/-! ### Attaching what was read -/

namespace Store

variable {s t : Store}

theorem Extends.object?_next (hst : s.Extends t) : s.object? t.next = none := by
  cases h : s.object? t.next with
  | none => rfl
  | some o => exact absurd rfl (ne_next_of_object? (hst _ o h))

/-- What is no expression was there before. -/
theorem GrowsBy.object?_eq (hst : s.GrowsBy IsExpression t) (ho : t.object? id = some o)
    (h : ¬ o.IsExpression) : s.object? id = some o := by
  cases hid : s.object? id with
  | none => exact absurd (hst.made id o hid ho) h
  | some p =>
    have hp := hst.extend id p hid
    rw [ho] at hp
    exact hp.symm

def IsPlaceholder (s : Store) (v : Value) (id : ObjectId) : Prop :=
  v = .object id ∧ ∃ old parent children added,
    s.object? id = some (.node ⟨.placeholder old parent, children⟩ added)

theorem isPlaceholder_of_asPlaceholder? (h : s.asPlaceholder? v = some id) :
    s.IsPlaceholder v id := by
  unfold asPlaceholder? at h
  split at h
  · next i morph parent children hnode =>
    cases h
    obtain ⟨hv, hn⟩ := asNode?_eq_some_iff.1 hnode
    obtain ⟨added, ho⟩ := node?_eq_some hn
    exact ⟨hv, morph, parent, children, added, ho⟩
  · cases h

theorem GrowsBy.isPlaceholder (hst : s.GrowsBy IsExpression t) (h : t.IsPlaceholder v id) :
    s.IsPlaceholder v id := by
  obtain ⟨hv, old, parent, children, added, ho⟩ := h
  exact ⟨hv, old, parent, children, added, hst.object?_eq ho (by rintro ⟨e, he⟩; cases he)⟩

theorem expectPlaceholder_yields (cause : View → ShapeFault) (v : Value) (s : Store) : (do
      let s ← store
      match s.asPlaceholder? v with
      | some id => return id
      | none => failShape cause v : Act ObjectId).Yields s
      (fun id t => t = s ∧ s.IsPlaceholder v id) (fun t => t = s) := by
  refine Yields.of_store ?_
  cases hslot : s.asPlaceholder? v with
  | none => rfl
  | some id => exact ⟨rfl, isPlaceholder_of_asPlaceholder? hslot⟩

theorem bind_bindsSlot (hst : s.Extends t) (hslot : s.IsPlaceholder slot id) (m : Morph) :
    (Binding.bind id m).Yields t (fun _ => s.BindsSlot m.kind slot) s.Extends := by
  obtain ⟨rfl, old, parent, children, added, ho⟩ := hslot
  have hpush := hst.trans (t.extends_push (.morph m []))
  have hne : t.next ≠ id := (ne_next_of_object? (hst _ _ ho)).symm
  rw [Yields, Binding.bind_apply]
  refine ⟨id, old, parent, children, added, t.next, m, rfl, hpush.changes_update ho _,
    hst.object?_next, ?_, rfl⟩
  rw [updateNode, object?_update, if_neg hne, object?_push_next]

/-- Binding a placeholder that is expected after expressions have been made. -/
theorem bindLeaf_bindsSlot (hst : s.GrowsBy IsExpression t) {expect : Act ObjectId}
    (hexpect : expect.Yields t (fun id u => u = t ∧ t.IsPlaceholder slot id) (· = t)) (m : Morph) :
    (expect >>= fun id => Binding.bind id m).Yields t (fun _ => s.BindsSlot m.kind slot) s.Extends := by
  refine hexpect.bind_eq ?_ ?_
  · rintro id t - ⟨rfl, hid⟩
    exact bind_bindsSlot hst.extend (hst.isPlaceholder hid) m
  · rintro t rfl
    exact hst.extend

/-- Binding a placeholder to a block, after its two branches have been recovered. -/
theorem bindBranches_bindsSlot {prepare : Act (ObjectId × HelperCall)} {first second : Act Value}
    (hprepare : prepare.Yields s (fun found t => s.Extends t ∧ s.IsPlaceholder slot found.1) s.Extends)
    (hfirst : ∀ found u, prepare s = .ok found u → first.Yields u (fun _ => u.Extends) u.Extends)
    (hsecond : ∀ found u primary v, prepare s = .ok found u → first u = .ok primary v →
      second.Yields v (fun _ => v.Extends) v.Extends) :
    (do
      let found ← prepare
      let primary ← first
      let alternate ← second
      Binding.bind found.1 (.block found.2 primary alternate) : Act Unit).Yields s
      (fun _ => s.BindsSlot .block slot) s.Extends := by
  refine hprepare.bind_eq (fun found u hfound hid => ?_) fun _ h => h
  refine (hfirst found u hfound).bind_eq (fun primary v hprimary huv => ?_)
    fun _ huv => hid.1.trans huv
  refine (hsecond found u primary v hfound hprimary).bind_eq (fun alternate w _ hvw => ?_)
    fun _ hvw => (hid.1.trans huv).trans hvw
  exact bind_bindsSlot ((hid.1.trans huv).trans hvw) hid.2 (.block found.2 primary alternate)

theorem setValue_setsValue (hst : s.Extends t) {target : Value}
    (htarget : s.asAttribute? target = some id) (hv : t.isExpression v = true) :
    (Binding.setValue id v).Yields t (fun _ => s.SetsValue target) s.Extends := by
  unfold asAttribute? at htarget
  split at htarget
  · next i key old owner added hobject =>
    cases htarget
    obtain ⟨rfl, ho⟩ := asObject?_eq_some hobject
    rw [Yields, Binding.setValue_apply]
    refine ⟨id, key, old, owner, added, v, rfl, hst.changes_update ho _, ?_⟩
    -- the value is another object than the morph that gets it
    unfold isExpression at hv ⊢
    split at hv
    · next x e hx =>
      obtain ⟨rfl, he⟩ := asObject?_eq_some hx
      have hne : x ≠ id := by
        rintro rfl
        rw [hst _ _ ho] at he
        cases he
      have hx' : (t.updateMorph id (Morph.setValue (.object x))).object? x =
          some (.expression e) := by
        rw [updateMorph, object?_update, if_neg hne, he]
      rw [asObject?_of_object? hx']
    · cases hv
  · cases htarget

theorem addModifier_addsModifier (hst : s.GrowsBy IsExpression t) {element : Value}
    {e : Element} (he : element? s element = some e) (c : HelperCall) :
    (Binding.addModifier e c).Yields t (fun _ => s.AddsModifier element) s.Extends := by
  obtain ⟨⟨shape, children⟩, tag, ns, rfl, hn, hshape⟩ := element?_eq_some_iff.1 he
  obtain ⟨added, ho⟩ := node?_eq_some hn
  simp only at hshape
  subst hshape
  have hpush := hst.extend.trans (t.extends_push (.morph (.element c) []))
  have hmorph : ∀ {id p}, s.object? id = some p → ∀ f : Object → Object,
      ((t.push (.morph (.element c) [])).update id f).object? t.next =
        some (.morph (.element c) []) := by
    intro id p hp f
    rw [object?_update, if_neg (ne_next_of_object? (hst.extend _ _ hp)).symm, object?_push_next]
  cases hmodifiers : e.modifiers with
  | own items =>
    rw [Yields, Binding.addModifier_ok hmodifiers]
    refine ⟨e.id, tag, ns, e.attributes, e.bound, e.modifiers, children, added, t.next, c, rfl, ho,
      hst.extend.object?_next, hmorph ho _, .inl ⟨items, hmodifiers, ?_⟩⟩
    exact hpush.changes_update ho _
  | shared w =>
    have heq : Binding.addModifier e c t =
        Container.append w (.object t.next) (t.push (.morph (.element c) [])) := by
      refine (bind_of_ok (new_apply _ t)).trans ?_
      rw [hmodifiers]
      rfl
    rw [Yields, heq, ← Yields]
    refine Yields.of_store ?_
    split
    · next list items hobject =>
      obtain ⟨rfl, hlist⟩ := asObject?_eq_some hobject
      -- the list is neither the new modifier nor one of the new expressions
      have hold : s.object? list = some (.list items) := by
        rw [object?_push] at hlist
        split_ifs at hlist
        · cases hlist
        · exact hst.object?_eq hlist (by rintro ⟨e, he⟩; cases he)
      refine ⟨e.id, tag, ns, e.attributes, e.bound, e.modifiers, children, added, t.next, c, rfl, ho,
        hst.extend.object?_next, hmorph hold _, .inr ⟨list, items, hmodifiers, ?_⟩⟩
      exact hpush.changes_update hold _
    · obtain ⟨fault, h⟩ := noAttribute_eq (α := Unit) w "append"
        (t.push (.morph (.element c) []))
      rw [Yields, h]
      exact hpush

end Store

/-! ### Hooks -/

namespace Hook

open Store

/-- What a hook that succeeds changes in a store. -/
def Effect : Hook → List Value → Store → Store → Prop
  | .inline, slot :: _, s, t => s.BindsSlot .inline slot t
  | .content, slot :: _, s, t => s.BindsSlot .content slot t
  | .block, slot :: _, s, t => s.BindsSlot .block slot t
  | .attribute, target :: _, s, t => s.SetsValue target t
  | .element, target :: _, s, t => s.AddsModifier target t
  | _, _, s, t => s.Extends t

theorem prepareBlock_isPlaceholder (slot name params hash inverse : Value) (s : Store) :
    (prepareBlock slot name params hash inverse).Yields s
      (fun found t => s.Extends t ∧ s.IsPlaceholder slot found.1) s.Extends := by
  have hname := helperName_makesOnly (P := IsExpression) block name
  refine Yields.bind ((expectPlaceholder_yields _ slot s).mono ?_ ?_)
  · rintro id s ⟨rfl, hid⟩
    refine (hname.yields s).bind_eq (fun name t _ hst => ?_) fun _ h => h.extend
    have hhelper := (makesOnly_note (.block name (inverse != .null))).bind
      fun _ => helperNamed_makesOnly params hash name
    have hyields : (((do
        note (.block name (inverse != .null))
        helperNamed params hash name) >>= fun c => pure (id, c)) : Act (ObjectId × HelperCall)).Yields t
        (fun found u => s.Extends u ∧ s.IsPlaceholder slot found.1) s.Extends :=
      (hhelper.yields t).bind_eq (fun c u _ htu => ⟨hst.extend.trans htu.extend, hid⟩)
        fun u htu => hst.extend.trans htu.extend
    rwa [bind_assoc] at hyields
  · rintro s rfl
    exact s.extends_refl

theorem bindBlock_bindsSlot {m : Machine} {name params hash template inverse : Value}
    (hnested : ∀ branch u, Asks m slot name params hash template inverse s branch u →
      u.Extends ((m.recover branch).after u)) :
    (bindBlock m slot name params hash template inverse).Yields s
      (fun _ => s.BindsSlot .block slot) s.Extends := by
  by_cases htemplate : template = .null
  · subst htemplate
    refine Yields.bind ((expectPlaceholder_yields _ slot s).mono ?_ ?_)
    · rintro id s ⟨rfl, -⟩
      exact ((helperName_makesOnly (P := IsExpression) block name).yields s).bind_eq
        (fun _ _ _ h => h.extend) fun _ h => h.extend
    · rintro s rfl
      exact s.extends_refl
  rw [bindBlock_eq m slot name params hash htemplate inverse]
  refine bindBranches_bindsSlot (prepareBlock_isPlaceholder slot name params hash inverse s)
    (fun found u hfound => yields_of_after (hnested template u (.primary htemplate hfound)))
    fun found u primary v hfound hroot => ?_
  by_cases hinverse : inverse = .null
  · subst hinverse
    exact v.extends_refl
  · rw [branch?_of_ne_null hinverse]
    exact yields_of_after (hnested inverse v (.alternate htemplate hfound hroot hinverse))

/-- **A hook** that fails has changed nothing, and one that succeeds has changed one field, if the
templates that it has recovered change nothing that was there. -/
theorem call_yields {m : Machine} {hook : Hook} {args : List Value}
    (hnested : ∀ branch u, hook.asks m s args branch u → u.Extends ((m.recover branch).after u)) :
    (call m hook args).Yields s (fun _ => hook.Effect args s) s.Extends := by
  have hnew : ∀ {α : Type} {x : Act α} (f : α → Expression), x.MakesOnly IsExpression →
      (do let a ← x; new (.expression (f a)) : Act Value).Yields s
        (fun _ => s.Extends) s.Extends := by
    intro α x f hx
    exact ((hx.bind fun a => makesOnly_newExpression (f a)).yields s).mono
      (fun _ _ h => h.extend) fun _ h => h.extend
  have hreturn : ∀ {x : Act Unit} {Q : Store → Prop}, x.Yields s (fun _ => Q) s.Extends →
      (do x; return Value.null : Act Value).Yields s (fun _ => Q) s.Extends :=
    fun hx => hx.bind_eq (fun _ _ _ h => h) fun _ h => h
  unfold call
  split
  · next path =>
    cases path with
    | str p => exact s.extends_push _
    | _ => exact s.extends_refl
  · exact hnew (fun parts => .concat (.own parts)) (params_makesOnly _)
  · exact hnew .subexpr (helperCall_makesOnly _ _ _ _)
  · next slot name params hash =>
    refine ((helperCall_makesOnly .inline name params hash).yields s).bind_eq
      (fun c t _ hst => ?_) fun _ h => h.extend
    rw [← bind_assoc]
    exact (bindLeaf_bindsSlot hst (expectPlaceholder_yields _ slot t) (.inline c)).bind_eq
      (fun _ _ _ h => h) fun _ h => h
  · next target _ _ value =>
    refine Yields.of_store ?_
    cases htarget : s.asAttribute? target with
    | none => exact s.extends_refl
    | some id =>
      refine (asExpression_expresses value s).bind_eq (fun e t _ h => ?_) fun _ h => h.extend
      exact (setValue_setsValue h.1.extend htarget h.2).bind_eq (fun _ _ _ h => h) fun _ h => h
  · next target name params hash =>
    refine Yields.of_store ?_
    cases helement : element? s target with
    | none => exact s.extends_refl
    | some e =>
      refine .of_expectList (((helperCall_makesOnly .element name params hash).yields s).bind_eq
        (fun c t _ hst => ?_) fun _ h => h.extend) s.extends_refl
      exact (addModifier_addsModifier hst helement c).bind_eq (fun _ _ _ h => h) fun _ h => h
  · next slot v =>
    rw [← bind_assoc]
    exact hreturn (bindLeaf_bindsSlot (growsBy_refl _ s) (expectPlaceholder_yields _ slot s)
      (.content v))
  · exact hreturn (bindBlock_bindsSlot hnested)
  · exact hreturn (bindBlock_bindsSlot hnested)
  · exact s.extends_refl

end Hook

/-! ### Statements -/

/-- The names of the fields that hold containers, and of the table of all fields. -/
def Field.containerNames : List String :=
  ["children", "attributes", "attribute_morphs", "element_morphs", "parts", "params", "hash",
    "__dict__"]

theorem Field.items?_eq_none (hname : name ∉ Field.containerNames) (o : Object) :
    Field.items? name o = none := by
  unfold Field.items?
  split
  all_goals first | rfl | exact absurd (by simp [containerNames]) hname

theorem Field.entries?_eq_none (hname : name ∉ Field.containerNames) (o : Object) :
    Field.entries? name o = none := by
  unfold Field.entries?
  split
  all_goals first | rfl | exact absurd (by simp [containerNames]) hname

/-- The attribute of a value under a name that is none of a container. -/
def Attribute.plain? (s : Store) (v : Value) (name : String) : Option Value :=
  match s.asObject? v with
  | none => typeMember? s v name
  | some (_, o) => (Field.value? name o).or (typeMember? s v name)

theorem Attribute.plain?_of_objects_eq {t : Store} (h : s.objects = t.objects) (v : Value)
    (name : String) : plain? s v name = plain? t v name := by
  obtain ⟨objects, _, _, _, _⟩ := s
  cases h
  rfl

/-- Reading an attribute that holds no container changes nothing. -/
theorem Attribute.find?_of_plain (hname : name ∉ Field.containerNames) (v : Value) (s : Store) :
    Attribute.find? v name s = .ok (plain? s v name) s := by
  have hdict : name ≠ "__dict__" := by
    rintro rfl
    simp [Field.containerNames] at hname
  unfold Attribute.find? plain?
  rw [bind_store]
  cases s.asObject? v with
  | none => rfl
  | some found =>
    obtain ⟨id, o⟩ := found
    have hread : Field.read? id o name s = .ok (Field.value? name o) s := by
      rw [Field.read?, Field.items?_eq_none hname, Field.entries?_eq_none hname]
      cases Field.value? name o <;> rfl
    refine (bind_of_ok hread).trans ?_
    cases hvalue : Field.value? name o with
    | some w => simp only [hvalue]; rfl
    | none =>
      simp only [hvalue, if_neg (fun h : name = "__dict__" ∧ hasTable o = true => hdict h.1)]
      rfl

namespace Opcode

open Store

/-- What a statement that succeeds at a slot changes in a store. -/
def Statement.Effect (slot : Value) (s t : Store) : Statement → Prop
  | .inline _ _ _ => s.BindsSlot .inline slot t
  | .content _ => s.BindsSlot .content slot t
  | .block _ _ _ _ _ => s.BindsSlot .block slot t
  | .attribute _ => s.SetsValue slot t
  | .element _ _ _ =>
    ∃ element, Attribute.plain? s slot "parent" = some element ∧ s.AddsModifier element t

/-- The element that owns a slot is found without a change. -/
theorem expectOwner_apply (slot : Value) (s : Store) :
    expectOwner slot s = match (Attribute.plain? s slot "parent").bind (element? s) with
      | some e => (do e.modifiers.expectList; return e : Act Element) s
      | none => .error (.shape .notElementSlot) s := by
  refine (bind_of_ok (Attribute.find?_of_plain (by decide) slot s)).trans ?_
  rw [bind_store]
  cases (Attribute.plain? s slot "parent").bind (element? s) <;> rfl

/-- The placeholder and the helper of a block, before its branches. -/
def prepareBlock (slot name ps h : Value) : Act (ObjectId × HelperCall) := do
  let id ← expectSlot .block slot
  let c ← helperCall "block" name ps h
  return (id, c)

/-- A block looks up the template at an index in a store: that of the primary branch when its helper
has been read, that of the other branch when the primary one is there. -/
inductive Statement.LooksUp (nested : Value → Act Value) (slot templates : Value) (s : Store) :
    Statement → Value → Store → Prop
  | primary {name ps h template inverse : Value} {found : ObjectId × HelperCall} {u : Store}
      (hprepare : prepareBlock slot name ps h s = .ok found u) :
      LooksUp nested slot templates s (.block name ps h template inverse) template u
  | alternate {name ps h template inverse root : Value} {found : ObjectId × HelperCall}
      {u v : Store} (hprepare : prepareBlock slot name ps h s = .ok found u)
      (hprimary : branch nested templates template u = .ok root v) (hinverse : inverse ≠ .null) :
      LooksUp nested slot templates s (.block name ps h template inverse) inverse v

/-- A statement has a template recovered in a store. -/
def Statement.Asks (nested : Value → Act Value) (slot templates : Value) (s : Store)
    (st : Statement) (branch : Value) (v : Store) : Prop :=
  ∃ index u, st.LooksUp nested slot templates s index u ∧
    childTemplate templates index u = .ok branch v

def statementOf (s : Store) (v : Value) : Except Fault Statement := do
  let (tag, args) ← splitStatement s v
  Statement.ofArgs s.display tag args

/-- The store in which a statement is carried out: it has been noted. -/
def noted (s : Store) (statement : Value) : Store :=
  match splitStatement s statement with
  | .ok (tag, args) =>
    s.noted (.statement tag.name (listText ((args.take 1).map fun v => (s.view v).repr)))
  | .error _ => s

/-- A value that is interpreted as a statement has a template recovered in a store. -/
def Asks (nested : Value → Act Value) (slot statement templates : Value) (s : Store) (branch : Value)
    (u : Store) : Prop :=
  ∃ st, statementOf s statement = .ok st ∧
    st.Asks nested slot templates (noted s statement) branch u

variable {nested : Value → Act Value} {slot templates : Value} {s : Store}

theorem branch_extends {index : Value} {u : Store}
    (hnested : ∀ branch v, childTemplate templates index u = .ok branch v →
      v.Extends ((nested branch).after v)) :
    (branch nested templates index).Yields u (fun _ => u.Extends) u.Extends := by
  refine ((childTemplate_makesOnly (P := IsExpression) templates index).yields u).bind_eq
    (fun template v hbranch huv => ?_) fun _ h => h.extend
  exact (yields_of_after (hnested template v hbranch)).mono
    (fun _ _ hvw => huv.extend.trans hvw) fun _ hvw => huv.extend.trans hvw

theorem prepareBlock_isPlaceholder (slot name ps h : Value) (s : Store) :
    (prepareBlock slot name ps h).Yields s
      (fun found t => s.Extends t ∧ s.IsPlaceholder slot found.1) s.Extends := by
  refine (expectPlaceholder_yields _ slot s).bind_eq ?_ ?_
  · rintro id s - ⟨rfl, hid⟩
    exact ((helperCall_makesOnly "block" name ps h).yields s).bind_eq
      (fun c u _ hsu => ⟨hsu.extend, hid⟩) fun _ hsu => hsu.extend
  · rintro s rfl
    exact s.extends_refl

theorem branch?_of_ne_null {index : Value} (h : index ≠ .null) :
    branch? nested templates index = branch nested templates index := by
  cases index with
  | null => exact absurd rfl h
  | _ => rfl

theorem apply_block_eq (nested : Value → Act Value)
    (slot templates name ps h template inverse : Value) :
    (Statement.block name ps h template inverse).apply nested slot templates = (do
      let found ← prepareBlock slot name ps h
      let primary ← branch nested templates template
      let alternate ← branch? nested templates inverse
      Binding.bind found.1 (.block found.2 primary alternate)) := by
  unfold prepareBlock
  simp only [Statement.apply, bind_assoc, pure_bind]

/-- **A statement** that fails has changed nothing, and one that succeeds has changed one field, if
the templates that it has recovered change nothing that was there. -/
theorem Statement.apply_yields {st : Statement}
    (hnested : ∀ branch u, st.Asks nested slot templates s branch u →
      u.Extends ((nested branch).after u)) :
    (st.apply nested slot templates).Yields s (fun _ t => st.Effect slot s t) s.Extends := by
  cases st with
  | inline name ps h =>
    exact ((helperCall_makesOnly "inline" name ps h).yields s).bind_eq
      (fun c t _ hst => bindLeaf_bindsSlot hst (expectPlaceholder_yields _ slot t) (.inline c))
      fun _ h => h.extend
  | «attribute» value =>
    refine Yields.of_store ?_
    cases htarget : s.asAttribute? slot with
    | none => exact s.extends_refl
    | some id =>
      exact (paramOf_expresses value s).bind_eq
        (fun e t _ h => setValue_setsValue h.1.extend htarget h.2) fun _ h => h.extend
  | element name ps h =>
    have howner := expectOwner_apply slot s
    cases helement : (Attribute.plain? s slot "parent").bind (element? s) with
    | none =>
      rw [helement] at howner
      rw [Yields, Statement.apply, bind_of_error howner]
      exact s.extends_refl
    | some e =>
      rw [helement] at howner
      obtain ⟨element, hparent, he⟩ := Option.bind_eq_some_iff.1 helement
      obtain hlist | ⟨fault, hlist⟩ := e.modifiers.expectList_eq s
      · rw [Yields, Statement.apply, bind_of_ok (howner.trans (bind_of_ok hlist)), ← Yields]
        exact ((helperCall_makesOnly "element" name ps h).yields s).bind_eq
          (fun c t _ hst => (addModifier_addsModifier hst he c).mono
            (fun _ _ h => ⟨element, hparent, h⟩) fun _ h => h) fun _ h => h.extend
      · rw [Yields, Statement.apply, bind_of_error (howner.trans (bind_of_error hlist))]
        exact s.extends_refl
  | content v =>
    exact bindLeaf_bindsSlot (growsBy_refl _ s) (expectPlaceholder_yields _ slot s) (.content v)
  | block name ps h template inverse =>
    rw [apply_block_eq]
    refine bindBranches_bindsSlot (prepareBlock_isPlaceholder slot name ps h s)
      (fun found u hprepare => branch_extends fun branch v hbranch =>
        hnested branch v ⟨template, u, .primary hprepare, hbranch⟩)
      fun found u primary v hprepare hprimary => ?_
    by_cases hinverse : inverse = .null
    · subst hinverse
      exact v.extends_refl
    · rw [branch?_of_ne_null hinverse]
      exact branch_extends fun branch w hbranch =>
        hnested branch w ⟨inverse, v, .alternate hprepare hprimary hinverse, hbranch⟩

/-- Only the objects of a store count for what a statement changes. -/
theorem Statement.Effect.of_objects_eq {st : Statement} {s' t : Store}
    (h : st.Effect slot s' t) (hs : s'.objects = s.objects) : st.Effect slot s t := by
  cases st with
  | inline name ps h' => exact BindsSlot.of_objects_eq h hs
  | «attribute» value =>
    obtain ⟨id, key, old, owner, added, v, hslot, hchange, hv⟩ := h
    exact ⟨id, key, old, owner, added, v, hslot, hchange.of_objects_eq hs, hv⟩
  | element name ps h' =>
    obtain ⟨element, hparent, id, tag, ns, attributes, bound, modifiers, children, added, morph, c,
      helement, ho, hnone, hmorph, hchange⟩ := h
    rw [object?_of_objects_eq hs] at ho hnone
    rw [Attribute.plain?_of_objects_eq hs] at hparent
    refine ⟨element, hparent, id, tag, ns, attributes, bound, modifiers, children, added, morph, c,
      helement, ho, hnone, hmorph, ?_⟩
    rcases hchange with ⟨items, hmodifiers, hchange⟩ | ⟨list, items, hmodifiers, hchange⟩
    · exact .inl ⟨items, hmodifiers, hchange.of_objects_eq hs⟩
    · exact .inr ⟨list, items, hmodifiers, hchange.of_objects_eq hs⟩
  | content v => exact BindsSlot.of_objects_eq h hs
  | block name ps h' template inverse => exact BindsSlot.of_objects_eq h hs

theorem noted_objects (s : Store) (statement : Value) :
    (noted s statement).objects = s.objects := by
  unfold noted
  split <;> rfl

/-- To interpret a value is to read it as a statement, to note it, and to carry it out. -/
theorem interpret_apply (nested : Value → Act Value) (slot statement templates : Value) (s : Store) :
    interpret nested slot statement templates s = match statementOf s statement with
      | .ok st => st.apply nested slot templates (noted s statement)
      | .error fault => .error fault (noted s statement) := by
  unfold interpret statementOf noted
  rw [bind_store]
  cases splitStatement s statement with
  | error fault => rfl
  | ok found =>
    obtain ⟨tag, args⟩ := found
    refine (bind_of_ok (rfl : lift (.ok (tag, args)) s = .ok (tag, args) s)).trans ?_
    refine (bind_of_ok rfl).trans ?_
    cases hof : Statement.ofArgs s.display tag args with
    | error fault => simp only [bind, Except.bind, hof]; rfl
    | ok st => simp only [bind, Except.bind, hof]; rfl

theorem interpret_yields {statement : Value}
    (hnested : ∀ branch u, Asks nested slot statement templates s branch u →
      u.Extends ((nested branch).after u)) :
    (interpret nested slot statement templates).Yields s
      (fun _ t => ∃ st, statementOf s statement = .ok st ∧ st.Effect slot s t) s.Extends := by
  have hobjects := noted_objects s statement
  have hextends : s.Extends (noted s statement) := extends_of_objects_eq hobjects
  rw [Yields, interpret_apply]
  cases hst : statementOf s statement with
  | error fault => exact hextends
  | ok st =>
    refine (Statement.apply_yields fun branch u hasks => hnested branch u ⟨st, hst, hasks⟩).mono
      (fun _ t h => ⟨st, rfl, h.of_objects_eq hobjects⟩) fun _ h => hextends.trans h

end Opcode

/-- A placeholder, a template that renders an empty fragment, parameters, and a block statement with
its templates, of which the only one is not declarative. -/
def blockStore : Store where
  objects := #[.node ⟨.placeholder .null .null, .own []⟩ [],
    .function (.routine (.mk .render [] (.fragment []))) [],
    .record [("render", .object ⟨1⟩)],
    .list [.str "a"],
    .list [.str "block", .str "if", .object ⟨3⟩, .null, .int 0, .null],
    .list [.object ⟨2⟩]]

end TemplateRecovery
