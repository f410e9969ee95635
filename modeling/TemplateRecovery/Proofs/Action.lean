import Mathlib.Tactic
import TemplateRecovery.Document.Call
import TemplateRecovery.Hook.Basic
import TemplateRecovery.Method.Part

/-!
# What actions do to a store

An action makes new objects and changes those that are there. Here each operation of a document is
told by its outcome: it is refused and leaves the store alone, or it leaves a store that differs from
the old one in stated places.

* `Store.push` is a store with one more object, `Store.updateNode` and `Store.updateMorph` one in
  which a node or a morph has changed.
* `Act.Yields` says what holds after an action, whether it succeeds or fails.
* `Act.Steps` relates the stores before and after an action.
* `Act.MeetsBy` relates an action to what it should give, or to a failure of some kind.
* `Document.appendChild_cases` and its like are the outcomes of the operations.
-/

namespace TemplateRecovery

open Act Document

variable {s s' t : Store} {id p : ObjectId} {o : Object} {v element : Value} {items : List Value}
  {n : Node}

/-! ### Associations -/

namespace Assoc

variable {κ ν μ : Type} {same : κ → κ → Bool}

/-- Binding a key keeps what all values have in common. -/
theorem snd_of_mem_insert {k : κ} {v : ν} {P : ν → Prop} (hv : P v) :
    ∀ {entries : List (κ × ν)}, (∀ e ∈ entries, P e.2) → ∀ e ∈ Assoc.insert same k v entries, P e.2
  | [], _, e, he => by
    rw [List.mem_singleton.1 he]
    exact hv
  | (k', v') :: rest, h, e, he => by
    unfold Assoc.insert at he
    split_ifs at he
    · rcases List.mem_cons.1 he with rfl | he
      · exact hv
      · exact h e (List.mem_cons_of_mem _ he)
    · rcases List.mem_cons.1 he with rfl | he
      · exact h _ List.mem_cons_self
      · exact snd_of_mem_insert hv (fun e he => h e (List.mem_cons_of_mem _ he)) e he

variable [BEq κ] [LawfulBEq κ]

/-- A key that is there keeps its place, a new one comes last. -/
theorem keys_insert (k : κ) (v : ν) (entries : List (κ × ν)) :
    (insert (· == ·) k v entries).map Prod.fst =
      if k ∈ entries.map Prod.fst then entries.map Prod.fst else entries.map Prod.fst ++ [k] := by
  induction entries with
  | nil => rfl
  | cons e rest ih =>
    rw [insert]
    by_cases hk : e.1 = k
    · simp [hk]
    · rw [if_neg (by simpa using hk), List.map_cons, ih]
      by_cases hrest : k ∈ rest.map Prod.fst
      · simp [hrest]
      · simp [hrest, Ne.symm hk]

theorem lookup_insert (k x : κ) (v : ν) (entries : List (κ × ν)) :
    (insert (· == ·) k v entries).lookup x = if x == k then some v else entries.lookup x := by
  induction entries with
  | nil =>
    rw [insert, List.lookup_cons]
    cases x == k <;> rfl
  | cons e rest ih =>
    rw [insert]
    by_cases hk : e.1 = k
    · rw [if_pos (by simpa using hk), List.lookup_cons, List.lookup_cons, hk]
      cases x == k <;> rfl
    · rw [if_neg (by simpa using hk), List.lookup_cons, List.lookup_cons, ih]
      cases hx : x == e.1 with
      | false => rfl
      | true => simp [beq_iff_eq.1 hx, hk]

theorem lookup_set (name x : String) (v : ν) (entries : List (String × ν)) :
    (set name v entries).lookup x = if x = name then some v else entries.lookup x := by
  simp [set, lookup_insert]

end Assoc

/-! ### Outcomes -/

namespace Act

variable {α β : Type}

/-- The store after an action, also after one that failed. -/
def after (x : Act α) (s : Store) : Store :=
  match x s with
  | .ok _ s' => s'
  | .error _ s' => s'

theorem after_of_ok {x : Act α} {a : α} (h : x s = .ok a s') : x.after s = s' := by
  rw [after, h]

theorem after_of_error {x : Act α} {fault : Fault} (h : x s = .error fault s') :
    x.after s = s' := by
  rw [after, h]

theorem bind_of_ok {x : Act α} {f : α → Act β} {a : α} (h : x s = .ok a s') :
    (x >>= f) s = f a s' := by
  change EStateM.bind x f s = f a s'
  rw [EStateM.bind, h]

theorem bind_of_error {x : Act α} {f : α → Act β} {fault : Fault} (h : x s = .error fault s') :
    (x >>= f) s = .error fault s' := by
  change EStateM.bind x f s = .error fault s'
  rw [EStateM.bind, h]

theorem bind_store (f : Store → Act β) (s : Store) : (store >>= f) s = f s s := rfl

/-- A sequence that succeeds has a first part that does. -/
theorem ok_of_bind {x : Act α} {f : α → Act β} {b : β} (h : (x >>= f) s = .ok b t) :
    ∃ a u, x s = .ok a u ∧ f a u = .ok b t := by
  cases hx : x s with
  | ok a u => exact ⟨a, u, rfl, (bind_of_ok hx).symm.trans h⟩
  | error fault u => rw [bind_of_error hx] at h; cases h

/-- After an action one statement holds of its result and the store, or another of the store alone if
it failed. -/
def Yields (x : Act α) (s : Store) (post : α → Store → Prop) (failed : Store → Prop) : Prop :=
  match x s with
  | .ok a s' => post a s'
  | .error _ s' => failed s'

theorem Yields.bind {x : Act α} {f : α → Act β} {post : β → Store → Prop} {failed : Store → Prop}
    (h : x.Yields s (fun a s' => (f a).Yields s' post failed) failed) :
    (x >>= f).Yields s post failed := by
  unfold Yields at h
  cases hx : x s with
  | ok a s' =>
    rw [hx] at h
    rw [Yields, bind_of_ok hx]
    exact h
  | error fault s' =>
    rw [hx] at h
    rw [Yields, bind_of_error hx]
    exact h

theorem Yields.mono {x : Act α} {post post' : α → Store → Prop} {failed failed' : Store → Prop}
    (h : x.Yields s post failed) (hpost : ∀ a s', post a s' → post' a s')
    (hfailed : ∀ s', failed s' → failed' s') : x.Yields s post' failed' := by
  unfold Yields at h ⊢
  cases hx : x s with
  | ok a s' => rw [hx] at h; exact hpost a s' h
  | error fault s' => rw [hx] at h; exact hfailed s' h

/-- What holds after an action in both cases holds of the store after it. -/
theorem Yields.after {x : Act α} {P : Store → Prop} (h : x.Yields s (fun _ => P) P) :
    P (x.after s) := by
  unfold Yields at h
  unfold Act.after
  cases hx : x s with
  | ok a s' => rw [hx] at h; exact h
  | error fault s' => rw [hx] at h; exact h

theorem yields_of_after {x : Act α} {Q : Store → Prop} (h : Q (x.after s)) :
    x.Yields s (fun _ => Q) Q := by
  unfold after at h
  unfold Yields
  cases hx : x s with
  | ok a t => rw [hx] at h; exact h
  | error fault t => rw [hx] at h; exact h

/-- Whatever an action does, it goes from one store to a related one, also if it fails. -/
def Steps (R : Store → Store → Prop) (x : Act α) : Prop := ∀ s, R s (x.after s)

section Steps

variable {R : Store → Store → Prop} [IsPreorder Store R]

theorem Steps.bind_result {x : Act α} {f : α → Act β} (hx : x.Steps R)
    (hf : ∀ {s a t}, x s = .ok a t → R t ((f a).after t)) : (x >>= f).Steps R := by
  intro s
  have hxs := hx s
  cases h : x s with
  | ok a t =>
    rw [after_of_ok h] at hxs
    rw [after, bind_of_ok h]
    exact IsTrans.trans _ _ _ hxs (hf h)
  | error fault t =>
    rw [after_of_error h] at hxs
    rw [after, bind_of_error h]
    exact hxs

theorem Steps.bind {x : Act α} {f : α → Act β} (hx : x.Steps R) (hf : ∀ a, (f a).Steps R) :
    (x >>= f).Steps R := hx.bind_result fun _ => hf _ _

theorem steps_of_after {x : Act α} (h : ∀ s, x.after s = s) : x.Steps R := by
  intro s
  rw [h]
  exact Std.Refl.refl s

theorem steps_pure (a : α) : (pure a : Act α).Steps R := steps_of_after fun _ => rfl

theorem steps_store : store.Steps R := steps_of_after fun _ => rfl

theorem steps_fail (fault : Fault) : (fail fault : Act α).Steps R := steps_of_after fun _ => rfl

theorem steps_failShape (cause : View → ShapeFault) (v : Value) :
    (failShape cause v : Act α).Steps R := steps_of_after fun _ => rfl

theorem steps_noKey (key : Value) : (noKey key : Act α).Steps R := steps_of_after fun _ => rfl

theorem noAttribute_eq (v : Value) (name : String) (s : Store) :
    ∃ fault, (noAttribute v name : Act α) s = .error fault s := by
  unfold noAttribute
  split <;> exact ⟨_, rfl⟩

theorem steps_noAttribute (v : Value) (name : String) : (noAttribute v name : Act α).Steps R := by
  refine steps_of_after fun s => ?_
  obtain ⟨fault, h⟩ := noAttribute_eq (α := α) v name s
  rw [after_of_error h]

theorem steps_view (v : Value) : (view v).Steps R := steps_of_after fun _ => rfl

theorem steps_lift (x : Except Fault α) : (lift x).Steps R := by
  cases x with
  | ok a => exact steps_pure a
  | error fault => exact steps_fail fault

theorem steps_text (v : Value) : (text v).Steps R :=
  steps_store.bind fun s => steps_lift (s.text v)

theorem steps_mapM {f : α → Act β} (hf : ∀ a, (f a).Steps R) (items : List α) :
    (items.mapM f).Steps R := by
  induction items with
  | nil => exact steps_pure []
  | cons a rest ih =>
    rw [List.mapM_cons]
    exact (hf a).bind fun b => ih.bind fun bs => steps_pure (b :: bs)

theorem steps_foldlM {f : β → α → Act β} (hf : ∀ b a, (f b a).Steps R) (items : List α)
    (b : β) : (items.foldlM f b).Steps R := by
  induction items generalizing b with
  | nil => exact steps_pure b
  | cons a rest ih =>
    rw [List.foldlM_cons]
    exact (hf b a).bind ih

end Steps

end Act

/-! ### Reading without a change -/

section Reading

open Act

variable {R : Store → Store → Prop} [IsPreorder Store R]

namespace Container

theorem length_steps (v : Value) : (length v).Steps R := by
  refine steps_store.bind fun s => ?_
  split
  all_goals first | exact steps_pure _ | exact steps_fail _

theorem items_steps (v : Value) : (Container.items v).Steps R := by
  refine steps_store.bind fun s => ?_
  split
  all_goals first | exact steps_pure _ | exact steps_fail _ | exact steps_noKey _

theorem position_steps (length : Nat) (missing : Fault) (key : Value) :
    (position length missing key).Steps R := by
  unfold position
  split
  · exact steps_fail _
  · split_ifs
    · exact steps_fail _
    · split
      · exact steps_pure _
      · exact steps_fail _

theorem hookItem_steps (v key : Value) : (item.hookItem v key).Steps R := by
  unfold item.hookItem
  split
  · split_ifs
    · exact steps_pure _
    · exact steps_noKey _
  · exact steps_noKey _

theorem item_steps (v key : Value) : (item v key).Steps R := by
  refine steps_store.bind fun s => ?_
  split
  · exact (position_steps _ _ _).bind fun _ => steps_pure _
  · exact (position_steps _ _ _).bind fun _ => steps_pure _
  · exact (position_steps _ _ _).bind fun _ => steps_pure _
  · split_ifs
    · split
      · exact steps_pure _
      · exact steps_noKey _
    · exact steps_fail _
  · exact hookItem_steps _ _
  · split_ifs
    · exact steps_pure _
    · exact steps_pure _
    · exact steps_noKey _
  · exact steps_fail _

theorem pairsFrom_steps (values : List Value) : ∀ (index : Nat) (entries : Entries),
    (pairsFrom index values entries).Steps R := by
  induction values with
  | nil => exact fun _ _ => steps_pure _
  | cons v rest ih =>
    intro index entries
    refine ((items_steps v).bind fun parts => ?_).bind fun pair => steps_store.bind fun s => ?_
    · split
      · exact steps_pure _
      · exact steps_fail _
    · split_ifs
      · exact ih _ _
      · exact steps_fail _

theorem pairs_steps (v : Value) : (pairs v).Steps R := by
  refine steps_store.bind fun s => ?_
  split
  · exact steps_pure _
  · exact (items_steps v).bind fun parts => pairsFrom_steps parts 0 []

end Container

namespace Held

theorem length_steps (h : Held (List Value)) : h.length.Steps R := by
  cases h with
  | own items => exact steps_pure _
  | shared v => exact Container.length_steps v

theorem get_steps (h : Held (List Value)) (p : Nat) : (h.get p).Steps R := by
  cases h with
  | own items => exact steps_pure _
  | shared v => exact Container.item_steps v _

end Held

namespace Document

theorem expectNode_steps (operation : String) (v : Value) : (expectNode operation v).Steps R := by
  refine steps_store.bind fun s => ?_
  split
  · exact steps_pure _
  · exact steps_failShape _ _

theorem expectElement_steps (operation : String) (v : Value) :
    (expectElement operation v).Steps R := by
  refine steps_store.bind fun s => ?_
  split
  · exact steps_pure _
  · exact steps_failShape _ _

theorem childAtIndex_steps (node index : Value) : (childAtIndex node index).Steps R := by
  refine (expectNode_steps _ _).bind fun found => ?_
  refine found.2.children.length_steps.bind fun count => ?_
  split
  · exact Held.get_steps _ _
  · exact steps_failShape _ _

theorem childAt_steps (node path : Value) : (childAt node path).Steps R :=
  (Container.items_steps path).bind fun steps =>
    steps_foldlM childAtIndex_steps steps node

end Document

end Reading

/-- To ask for a list finds out or fails, and changes nothing. -/
theorem Held.expectList_eq (h : Held (List Value)) (s : Store) :
    h.expectList s = .ok () s ∨ ∃ fault, h.expectList s = .error fault s := by
  cases h with
  | own items => exact .inl rfl
  | shared v =>
    have hmissing : ∃ fault, (noAttribute v "append" : Act Unit) s = .error fault s := by
      cases v <;> exact ⟨_, rfl⟩
    rw [expectList, Container.expectList, bind_store]
    cases s.asObject? v with
    | none => exact .inr hmissing
    | some found =>
      obtain ⟨id, o⟩ := found
      cases o with
      | list items => exact .inl rfl
      | _ => exact .inr hmissing

theorem Act.Yields.of_expectList {α : Type} {held : Held (List Value)} {f : Unit → Act α}
    {s : Store} {post : α → Store → Prop} {failed : Store → Prop} (hf : (f ()).Yields s post failed)
    (hs : failed s) : (held.expectList >>= f).Yields s post failed := by
  obtain h | ⟨fault, h⟩ := held.expectList_eq s
  · rw [Yields, bind_of_ok h]
    exact hf
  · rw [Yields, bind_of_error h]
    exact hs

/-! ### Stores with a change -/

def Object.node? : Object → Option Node
  | .node n _ => some n
  | _ => none

def Object.morph? : Object → Option Morph
  | .morph m _ => some m
  | _ => none

def Object.expression? : Object → Option Expression
  | .expression e => some e
  | _ => none

def Object.mapNode (f : Node → Node) : Object → Object
  | .node n added => .node (f n) added
  | o => o

def Object.mapMorph (f : Morph → Morph) : Object → Object
  | .morph m added => .morph (f m) added
  | o => o

namespace Store

def next (s : Store) : ObjectId := ⟨s.objects.size⟩

def push (s : Store) (o : Object) : Store := { s with objects := s.objects.push o }

def update (s : Store) (id : ObjectId) (f : Object → Object) : Store :=
  { s with objects := s.objects.modify id.index f }

def updateNode (s : Store) (id : ObjectId) (f : Node → Node) : Store :=
  s.update id (Object.mapNode f)

def updateMorph (s : Store) (id : ObjectId) (f : Morph → Morph) : Store :=
  s.update id (Object.mapMorph f)

def node? (s : Store) (id : ObjectId) : Option Node := (s.object? id).bind Object.node?

def morph? (s : Store) (id : ObjectId) : Option Morph := (s.object? id).bind Object.morph?

def expression? (s : Store) (id : ObjectId) : Option Expression :=
  (s.object? id).bind Object.expression?

theorem object?_of_objects_eq (h : t.objects = s.objects) (id : ObjectId) :
    t.object? id = s.object? id := by
  rw [object?, object?, h]

theorem index_lt_of_object? (h : s.object? id = some o) : id.index < s.objects.size :=
  (Array.getElem?_eq_some_iff.1 h).1

theorem object?_eq_some_iff_lt : (∃ o, s.object? id = some o) ↔ id.index < s.objects.size := by
  constructor
  · rintro ⟨o, h⟩
    exact index_lt_of_object? h
  · intro h
    exact ⟨s.objects[id.index], Array.getElem?_eq_getElem h⟩

@[simp] theorem size_push (s : Store) (o : Object) :
    (s.push o).objects.size = s.objects.size + 1 := by
  simp [push]

@[simp] theorem size_update (s : Store) (id : ObjectId) (f : Object → Object) :
    (s.update id f).objects.size = s.objects.size := by
  simp [update]

theorem object?_push (s : Store) (o : Object) (id : ObjectId) :
    (s.push o).object? id = if id = s.next then some o else s.object? id := by
  obtain ⟨i⟩ := id
  simp only [object?, push, next, Array.getElem?_push, ObjectId.mk.injEq]

@[simp] theorem object?_push_next (s : Store) (o : Object) : (s.push o).object? s.next = some o := by
  simp [object?_push]

theorem object?_next (s : Store) : s.object? s.next = none := by
  simp [object?, next]

theorem ne_next_of_object? (h : s.object? id = some o) : id ≠ s.next := by
  rintro rfl
  rw [object?_next] at h
  cases h

theorem object?_push_of_some (h : s.object? id = some o) (p : Object) :
    (s.push p).object? id = some o := by
  rw [object?_push, if_neg (ne_next_of_object? h), h]

theorem object?_update (s : Store) (id : ObjectId) (f : Object → Object) (x : ObjectId) :
    (s.update id f).object? x = if x = id then (s.object? x).map f else s.object? x := by
  obtain ⟨i⟩ := x
  obtain ⟨j⟩ := id
  simp only [object?, update, Array.getElem?_modify, ObjectId.mk.injEq]
  by_cases h : i = j
  · simp [h]
  · simp [h, Ne.symm h]

theorem node?_push (s : Store) (o : Object) (id : ObjectId) :
    (s.push o).node? id = if id = s.next then o.node? else s.node? id := by
  rw [node?, object?_push]
  split_ifs <;> rfl

theorem morph?_push (s : Store) (o : Object) (id : ObjectId) :
    (s.push o).morph? id = if id = s.next then o.morph? else s.morph? id := by
  rw [morph?, object?_push]
  split_ifs <;> rfl

theorem expression?_push (s : Store) (o : Object) (id : ObjectId) :
    (s.push o).expression? id = if id = s.next then o.expression? else s.expression? id := by
  rw [expression?, object?_push]
  split_ifs <;> rfl

/-- An update that keeps what is read off an object keeps it everywhere. -/
theorem bind_object?_update {β : Type} (s : Store) (id : ObjectId) {f : Object → Object}
    {g : Object → Option β} (h : ∀ o, g (f o) = g o) (x : ObjectId) :
    ((s.update id f).object? x).bind g = (s.object? x).bind g := by
  rw [object?_update]
  split_ifs
  · rw [Option.bind_map]
    exact congrArg _ (funext h)
  · rfl

theorem node?_updateNode (s : Store) (id : ObjectId) (f : Node → Node) (x : ObjectId) :
    (s.updateNode id f).node? x = if x = id then (s.node? x).map f else s.node? x := by
  rw [node?, updateNode, object?_update]
  split_ifs
  · rw [node?]
    cases s.object? x with
    | none => rfl
    | some o => cases o <;> rfl
  · rfl

@[simp] theorem morph?_updateNode (s : Store) (id : ObjectId) (f : Node → Node) (x : ObjectId) :
    (s.updateNode id f).morph? x = s.morph? x :=
  bind_object?_update s id (fun o => by cases o <;> rfl) x

@[simp] theorem expression?_updateNode (s : Store) (id : ObjectId) (f : Node → Node)
    (x : ObjectId) : (s.updateNode id f).expression? x = s.expression? x :=
  bind_object?_update s id (fun o => by cases o <;> rfl) x

theorem morph?_updateMorph (s : Store) (id : ObjectId) (f : Morph → Morph) (x : ObjectId) :
    (s.updateMorph id f).morph? x = if x = id then (s.morph? x).map f else s.morph? x := by
  rw [morph?, updateMorph, object?_update]
  split_ifs
  · rw [morph?]
    cases s.object? x with
    | none => rfl
    | some o => cases o <;> rfl
  · rfl

@[simp] theorem node?_updateMorph (s : Store) (id : ObjectId) (f : Morph → Morph) (x : ObjectId) :
    (s.updateMorph id f).node? x = s.node? x :=
  bind_object?_update s id (fun o => by cases o <;> rfl) x

@[simp] theorem expression?_updateMorph (s : Store) (id : ObjectId) (f : Morph → Morph)
    (x : ObjectId) : (s.updateMorph id f).expression? x = s.expression? x :=
  bind_object?_update s id (fun o => by cases o <;> rfl) x

theorem asObject?_of_object? (h : s.object? id = some o) :
    s.asObject? (.object id) = some (id, o) := by
  change (s.object? id).map (id, ·) = some (id, o)
  rw [h]
  rfl

theorem asObject?_eq_some (h : s.asObject? v = some (id, o)) :
    v = .object id ∧ s.object? id = some o := by
  cases v with
  | object i =>
    obtain ⟨p, hp, heq⟩ := Option.map_eq_some_iff.1 h
    cases heq
    exact ⟨rfl, hp⟩
  | _ => cases h

theorem array?_eq_some (h : s.array? v = some items) : ∃ id, v = .object id ∧
      (s.object? id = some (.list items) ∨ s.object? id = some (.tuple items)) := by
  unfold array? at h
  split at h
  · next id found hobject =>
    cases h
    obtain ⟨hv, ho⟩ := asObject?_eq_some hobject
    exact ⟨id, hv, .inl ho⟩
  · next id found hobject =>
    cases h
    obtain ⟨hv, ho⟩ := asObject?_eq_some hobject
    exact ⟨id, hv, .inr ho⟩
  · cases h

theorem entries?_eq_some {entries : Entries} (h : s.entries? v = some entries) :
    ∃ id, v = .object id ∧ s.object? id = some (.map entries) := by
  unfold entries? at h
  split at h
  · next id found hobject =>
    cases h
    obtain ⟨hv, ho⟩ := asObject?_eq_some hobject
    exact ⟨id, hv, ho⟩
  · cases h

theorem asNode?_object (s : Store) (id : ObjectId) :
    s.asNode? (.object id) = (s.node? id).map (id, ·) := by
  unfold asNode? node?
  cases h : s.object? id with
  | none => simp [asObject?, h]
  | some o =>
    rw [asObject?_of_object? h]
    cases o <;> rfl

theorem asNode?_eq_some_iff :
    s.asNode? v = some (id, n) ↔ v = .object id ∧ s.node? id = some n := by
  cases v with
  | object i =>
    rw [asNode?_object, Option.map_eq_some_iff]
    constructor
    · rintro ⟨m, hm, h⟩
      cases h
      exact ⟨rfl, hm⟩
    · rintro ⟨h, hn⟩
      cases h
      exact ⟨n, hn, rfl⟩
  | _ => simp [asNode?, asObject?]

/-- Everything in a store is still there, unchanged, in a later one. -/
def Extends (s t : Store) : Prop := ∀ id o, s.object? id = some o → t.object? id = some o

theorem extends_refl (s : Store) : s.Extends s := fun _ _ h => h

theorem Extends.trans {u : Store} (hst : s.Extends t) (htu : t.Extends u) : s.Extends u :=
  fun id o h => htu id o (hst id o h)

theorem extends_push (s : Store) (o : Object) : s.Extends (s.push o) :=
  fun _ _ h => object?_push_of_some h o

theorem extends_of_objects_eq (h : t.objects = s.objects) : s.Extends t :=
  fun id _ ho => (object?_of_objects_eq h id).trans ho

theorem Extends.size_le (h : s.Extends t) : s.objects.size ≤ t.objects.size := by
  by_contra hlt
  obtain ⟨o, ho⟩ := object?_eq_some_iff_lt.2 (show t.next.index < s.objects.size by
    simp only [next]; omega)
  exact lt_irrefl _ (index_lt_of_object? (h _ o ho))

/-- Distinct objects that are there are no more than all of them. -/
theorem length_le_size_of_nodup {ids : List ObjectId} (hnodup : ids.Nodup)
    (hlt : ∀ id ∈ ids, id.index < s.objects.size) : ids.length ≤ s.objects.size := by
  have hinjective : Function.Injective ObjectId.index := by
    rintro ⟨i⟩ ⟨j⟩ rfl
    rfl
  have hsubset : ids.map ObjectId.index ⊆ List.range s.objects.size := by
    intro i hi
    obtain ⟨id, hid, rfl⟩ := List.mem_map.1 hi
    exact List.mem_range.2 (hlt id hid)
  have hle := (List.subperm_of_subset (hnodup.map hinjective) hsubset).length_le
  simpa using hle

end Store

theorem Act.new_apply (o : Object) (s : Store) : new o s = .ok (.object s.next) (s.push o) := rfl

theorem Document.modifyNode_apply (id : ObjectId) (f : Node → Node) (s : Store) :
    modifyNode id f s = .ok () (s.updateNode id f) := by
  have hmodify : ∀ g : Object → Object, (∀ o, g o = o.mapNode f) →
      modify id g s = .ok () (s.updateNode id f) := by
    intro g hg
    rw [funext hg]
    rfl
  exact hmodify _ fun o => by cases o <;> rfl

/-! ### Refusals -/

namespace Act

variable {α β : Type}

/-- An action fails and leaves the store alone. -/
def Refuses (x : Act α) (s : Store) : Prop := ∃ fault, x s = .error fault s

theorem Refuses.bind {x : Act α} (h : x.Refuses s) (f : α → Act β) : (x >>= f).Refuses s := by
  obtain ⟨fault, h⟩ := h
  exact ⟨fault, bind_of_error h⟩

theorem Refuses.of_bind_ok {x : Act α} {f : α → Act β} {a : α} (hx : x s = .ok a s)
    (h : (f a).Refuses s) : (x >>= f).Refuses s := by
  obtain ⟨fault, h⟩ := h
  exact ⟨fault, (bind_of_ok hx).trans h⟩

end Act

/-! ### Meeting a specification -/

namespace Act

variable {α β γ δ : Type} {P : Fault → Prop}

/-- An action gives what it should, or fails with a fault of some kind if it should give nothing. -/
def MeetsBy (P : Fault → Prop) (x : Act α) (s : Store) (spec : Option β)
    (post : α → Store → β → Prop) : Prop :=
  match spec with
  | some b => ∃ a t, x s = .ok a t ∧ post a t b
  | none => ∃ fault t, x s = .error fault t ∧ P fault

variable {x : Act α} {s : Store}

namespace MeetsBy

theorem bind {spec : Option β} {post : α → Store → β → Prop} (h : x.MeetsBy P s spec post)
    {f : α → Act γ} {g : β → Option δ} {post' : γ → Store → δ → Prop}
    (hf : ∀ a t b, post a t b → (f a).MeetsBy P t (g b) post') :
    (x >>= f).MeetsBy P s (spec.bind g) post' := by
  cases spec with
  | none =>
    obtain ⟨fault, t, h, hfault⟩ := h
    exact ⟨fault, t, bind_of_error h, hfault⟩
  | some b =>
    obtain ⟨a, t, h, hpost⟩ := h
    have hmeets := hf a t b hpost
    rw [Option.bind_some]
    cases hg : g b with
    | none =>
      rw [hg] at hmeets
      obtain ⟨fault, u, hu, hfault⟩ := hmeets
      exact ⟨fault, u, (bind_of_ok h).trans hu, hfault⟩
    | some c =>
      rw [hg] at hmeets
      obtain ⟨c', u, hu, hpost'⟩ := hmeets
      exact ⟨c', u, (bind_of_ok h).trans hu, hpost'⟩

/-- An action after one that succeeds. -/
theorem of_bind_ok {a : α} (h : x s = .ok a t) {f : α → Act β} {spec : Option γ}
    {post : β → Store → γ → Prop} (hf : (f a).MeetsBy P t spec post) :
    (x >>= f).MeetsBy P s spec post := by
  cases spec with
  | none =>
    obtain ⟨fault, u, hu, hfault⟩ := hf
    exact ⟨fault, u, (bind_of_ok h).trans hu, hfault⟩
  | some c =>
    obtain ⟨b, u, hu, hpost⟩ := hf
    exact ⟨b, u, (bind_of_ok h).trans hu, hpost⟩

theorem mono {spec : Option β} {post post' : α → Store → β → Prop} (h : x.MeetsBy P s spec post)
    (hpost : ∀ a t b, post a t b → post' a t b) : x.MeetsBy P s spec post' := by
  cases spec with
  | none => exact h
  | some b =>
    obtain ⟨a, t, h, hp⟩ := h
    exact ⟨a, t, h, hpost a t b hp⟩

theorem of_eq {y : Act α} {spec : Option β} {post : α → Store → β → Prop} (heq : x s = y t)
    (h : y.MeetsBy P t spec post) : x.MeetsBy P s spec post := by
  unfold MeetsBy
  rw [heq]
  exact h

/-- What an action should give, told in another way. -/
theorem map_spec {spec : Option β} {post : α → Store → β → Prop} (h : x.MeetsBy P s spec post)
    {g : β → δ} {post' : α → Store → δ → Prop} (hpost : ∀ a t b, post a t b → post' a t (g b)) :
    x.MeetsBy P s (spec.bind fun b => some (g b)) post' := by
  cases spec with
  | none => exact h
  | some b =>
    obtain ⟨a, t, h, hp⟩ := h
    exact ⟨a, t, h, hpost a t b hp⟩

end MeetsBy

end Act

/-! ### Operations of a document -/

/-- Whether all containers of a node are its own. -/
def Node.Owned (n : Node) : Prop :=
  (∃ items, n.children = .own items) ∧ match n.shape with
    | .element _ _ attributes bound modifiers =>
      (∃ entries, attributes = .own entries) ∧ (∃ items, bound = .own items) ∧
        ∃ items, modifiers = .own items
    | _ => True

/-- Whether all containers of nodes are their own. -/
def Store.Owned (s : Store) : Prop := ∀ id n, s.node? id = some n → n.Owned

def Store.noted (s : Store) (e : Event) : Store := { s with log := s.log.push e }

namespace Document

def withChildren (children : List Value) (n : Node) : Node := { n with children := .own children }

def withShape (f : Shape → Shape) (n : Node) : Node := { n with shape := f n.shape }

theorem modifyShape_apply (id : ObjectId) (f : Shape → Shape) (s : Store) :
    modifyShape id f s = .ok () (s.updateNode id (withShape f)) :=
  modifyNode_apply id _ s

theorem expectNode_ok (operation : String) (h : s.node? id = some n) :
    expectNode operation (.object id) s = .ok (id, n) s := by
  unfold expectNode
  rw [bind_store, Store.asNode?_eq_some_iff.2 ⟨rfl, h⟩]
  rfl

theorem expectNode_refuses (operation : String) (h : s.asNode? v = none) :
    (expectNode operation v).Refuses s := by
  unfold Act.Refuses expectNode
  rw [bind_store, h]
  exact ⟨_, rfl⟩

theorem asNode?_cases (s : Store) (v : Value) :
    s.asNode? v = none ∨ ∃ id n, v = .object id ∧ s.node? id = some n := by
  cases h : s.asNode? v with
  | none => exact .inl rfl
  | some found => exact .inr ⟨found.1, found.2, Store.asNode?_eq_some_iff.1 h⟩

theorem appendChild_ok {c : ObjectId} {m : Node} (hn : s.node? p = some n)
    (hitems : n.children = .own items) (hm : s.node? c = some m) :
    appendChild (.object p) (.object c) s =
      .ok (.object c) ((s.updateNode p (withChildren (items ++ [.object c]))).updateNode c
        (withShape (adopt (.object p)))) := by
  have happend : n.children.append (.object c) (keepChildren p) s =
      .ok () (s.updateNode p (withChildren (items ++ [.object c]))) := by
    rw [hitems]
    exact modifyNode_apply p _ s
  exact (bind_of_ok (expectNode_ok _ hn)).trans ((bind_of_ok (expectNode_ok _ hm)).trans
    ((bind_of_ok happend).trans (bind_of_ok (modifyNode_apply c _ _))))

/-- **Appending a node** is refused, or it changes the children of the parent and lets the child know
its parent. -/
theorem appendChild_cases (hs : s.Owned) (parent child : Value) :
    (appendChild parent child).Refuses s ∨
      ∃ p n items c m, parent = .object p ∧ s.node? p = some n ∧ n.children = .own items ∧
        child = .object c ∧ s.node? c = some m ∧
        appendChild parent child s =
          .ok child ((s.updateNode p (withChildren (items ++ [child]))).updateNode c
            (withShape (adopt parent))) := by
  obtain hparent | ⟨p, n, rfl, hn⟩ := asNode?_cases s parent
  · exact .inl ((expectNode_refuses _ hparent).bind _)
  obtain hchild | ⟨c, m, rfl, hm⟩ := asNode?_cases s child
  · exact .inl (.of_bind_ok (expectNode_ok _ hn) ((expectNode_refuses _ hchild).bind _))
  obtain ⟨items, hitems⟩ := (hs p n hn).1
  exact .inr ⟨p, n, items, c, m, rfl, hn, hitems, rfl, hm, appendChild_ok hn hitems hm⟩

theorem element?_eq_some_iff {e : Element} :
    element? s v = some e ↔ ∃ n tag ns, v = .object e.id ∧ s.node? e.id = some n ∧
      n.shape = .element tag ns e.attributes e.bound e.modifiers := by
  unfold element?
  constructor
  · intro h
    split at h
    · next id tag ns attributes bound modifiers children hnode =>
      cases h
      obtain ⟨hv, hn⟩ := Store.asNode?_eq_some_iff.1 hnode
      exact ⟨_, tag, ns, hv, hn, rfl⟩
    · cases h
  · rintro ⟨⟨shape, children⟩, tag, ns, hv, hn, hshape⟩
    subst hshape
    rw [Store.asNode?_eq_some_iff.2 ⟨hv, hn⟩]

/-- The containers of an element of a store in which all containers are owned. -/
theorem owned_of_element? (hs : s.Owned) {e : Element} (h : element? s v = some e) :
    (∃ entries, e.attributes = .own entries) ∧ (∃ items, e.bound = .own items) ∧
      ∃ items, e.modifiers = .own items := by
  obtain ⟨n, tag, ns, -, hn, hshape⟩ := element?_eq_some_iff.1 h
  have howned := (hs e.id n hn).2
  rw [hshape] at howned
  exact howned

theorem expectElement_ok (operation : String) {e : Element} (h : element? s v = some e) :
    expectElement operation v s = .ok e s := by
  unfold expectElement
  rw [bind_store, h]
  rfl

theorem expectElement_refuses (operation : String) (h : element? s v = none) :
    (expectElement operation v).Refuses s := by
  unfold Act.Refuses expectElement
  rw [bind_store, h]
  exact ⟨_, rfl⟩

theorem setAttribute_eq {value : Value} {e : Element} {entries : Entries} {text : String}
    (name : Value) (he : element? s element = some e) (hentries : e.attributes = .own entries)
    (htext : s.text value = .ok text) :
    setAttribute element name value s =
      if s.isKey name then
        .ok () (s.updateNode e.id
          (withShape (withAttributes (.own (s.insert name (.str text) entries)))))
      else .error .wrongType s := by
  have hvalue : Act.text value s = .ok text s := by
    change Act.lift (s.text value) s = _
    rw [htext]
    rfl
  have hbind : e.attributes.bind name (.str text)
        (fun attributes => modifyShape e.id (withAttributes attributes)) s =
      (if s.isKey name then
        modifyShape e.id (withAttributes (.own (s.insert name (.str text) entries)))
      else fail .wrongType : Act Unit) s := by
    rw [hentries]
    rfl
  refine (bind_of_ok (expectElement_ok _ he)).trans ((bind_of_ok hvalue).trans
    (hbind.trans ?_))
  split_ifs
  · exact modifyShape_apply _ _ s
  · rfl

/-- **Setting an attribute** is refused, or it changes the attributes of the element. -/
theorem setAttribute_cases (hs : s.Owned) (element name value : Value) :
    (setAttribute element name value).Refuses s ∨
      ∃ e entries text, element? s element = some e ∧ e.attributes = .own entries ∧
        setAttribute element name value s = .ok () (s.updateNode e.id
          (withShape (withAttributes (.own (s.insert name (.str text) entries))))) := by
  cases he : element? s element with
  | none => exact .inl ((expectElement_refuses _ he).bind _)
  | some e =>
    obtain ⟨entries, hentries⟩ := (owned_of_element? hs he).1
    cases htext : s.text value with
    | error fault =>
      have hvalue : text value s = .error fault s := by
        change lift (s.text value) s = _
        rw [htext]
        rfl
      exact .inl ⟨fault, (bind_of_ok (expectElement_ok _ he)).trans (bind_of_error hvalue)⟩
    | ok text =>
      have heq := setAttribute_eq name he hentries htext
      split_ifs at heq
      · exact .inr ⟨e, entries, text, rfl, hentries, heq⟩
      · exact .inl ⟨_, heq⟩

theorem createAttrMorph_ok {name : Value} {e : Element} (he : element? s element = some e)
    (hitems : e.bound = .own items) :
    createAttrMorph element name s = .ok (.object s.next)
      ((s.push (.morph (.attribute name .null element) [])).updateNode e.id
        (withShape (withBound (.own (items ++ [.object s.next]))))) := by
  have happend : e.bound.append (.object s.next)
        (fun bound => modifyShape e.id (withBound bound))
        (s.push (.morph (.attribute name .null element) [])) =
      .ok () ((s.push (.morph (.attribute name .null element) [])).updateNode e.id
        (withShape (withBound (.own (items ++ [.object s.next]))))) := by
    rw [hitems]
    exact modifyShape_apply _ _ _
  exact (bind_of_ok (expectElement_ok _ he)).trans
    ((bind_of_ok (new_apply _ s)).trans (bind_of_ok happend))

/-- **Opening a bound attribute** is refused, or it adds a new morph to the bound attributes of the
element. -/
theorem createAttrMorph_cases (hs : s.Owned) (element name : Value) :
    (createAttrMorph element name).Refuses s ∨
      ∃ e items, element? s element = some e ∧ e.bound = .own items ∧
        createAttrMorph element name s = .ok (.object s.next)
          ((s.push (.morph (.attribute name .null element) [])).updateNode e.id
            (withShape (withBound (.own (items ++ [.object s.next]))))) := by
  cases he : element? s element with
  | none => exact .inl ((expectElement_refuses _ he).bind _)
  | some e =>
    obtain ⟨items, hitems⟩ := (owned_of_element? hs he).2.1
    exact .inr ⟨e, items, rfl, hitems, createAttrMorph_ok he hitems⟩

theorem createElementMorph_ok {e : Element} (he : element? s element = some e) :
    createElementMorph element s = .ok (.object s.next) (s.push (.slot element [])) :=
  bind_of_ok (expectElement_ok _ he)

/-- **Opening a place for modifiers** is refused, or it makes a handle. -/
theorem createElementMorph_cases (element : Value) (s : Store) :
    (createElementMorph element).Refuses s ∨
      createElementMorph element s = .ok (.object s.next) (s.push (.slot element [])) := by
  cases he : element? s element with
  | none => exact .inl ((expectElement_refuses _ he).bind _)
  | some e => exact .inr (createElementMorph_ok he)

theorem createMorphAt_eq (first last : Value) (hn : s.node? p = some n)
    (hitems : n.children = .own items) :
    createMorphAt (.object p) first last s =
      match range? first last items.length with
      | some (i, j) => .ok (.object s.next)
          (((s.push (.node ⟨.placeholder .null (.object p), .own []⟩ [])).updateNode p
            (withChildren (Container.spliced items i j (.object s.next)))).noted
              (.slot i j n.shape.kind))
      | none => .error (.ofShape (.morphRange (s.view first) (s.view last) items.length)) s := by
  have hlength : n.children.length s = .ok items.length s := by
    rw [hitems]
    rfl
  refine (bind_of_ok (expectNode_ok _ hn)).trans ((bind_of_ok hlength).trans ?_)
  cases hrange : range? first last items.length with
  | none => rfl
  | some found =>
    obtain ⟨i, j⟩ := found
    have hsplice : n.children.splice i j (.object s.next) (keepChildren p)
          (s.push (.node ⟨.placeholder .null (.object p), .own []⟩ [])) =
        .ok () ((s.push (.node ⟨.placeholder .null (.object p), .own []⟩ [])).updateNode p
          (withChildren (Container.spliced items i j (.object s.next)))) := by
      rw [hitems]
      exact modifyNode_apply p _ _
    exact (bind_of_ok (new_apply _ s)).trans ((bind_of_ok hsplice).trans rfl)

theorem range?_eq_some {first last : Value} {count i j : Nat}
    (h : range? first last count = some (i, j)) : i ≤ j ∧ j < count := by
  simp only [range?, Option.bind_eq_bind, Option.bind_eq_some_iff] at h
  obtain ⟨a, -, b, -, h⟩ := h
  split_ifs at h with hrange
  cases h
  omega

/-- **Replacing a range of children** is refused, or a new placeholder stands for the range. -/
theorem createMorphAt_cases (hs : s.Owned) (parent first last : Value) :
    (createMorphAt parent first last).Refuses s ∨
      ∃ p n items i j, parent = .object p ∧ s.node? p = some n ∧ n.children = .own items ∧
        range? first last items.length = some (i, j) ∧
        createMorphAt parent first last s = .ok (.object s.next)
          (((s.push (.node ⟨.placeholder .null parent, .own []⟩ [])).updateNode p
            (withChildren (Container.spliced items i j (.object s.next)))).noted
              (.slot i j n.shape.kind)) := by
  obtain hparent | ⟨p, n, rfl, hn⟩ := asNode?_cases s parent
  · exact .inl ((expectNode_refuses _ hparent).bind _)
  obtain ⟨items, hitems⟩ := (hs p n hn).1
  have heq := createMorphAt_eq first last hn hitems
  cases hrange : range? first last items.length with
  | none =>
    rw [hrange] at heq
    exact .inl ⟨_, heq⟩
  | some found =>
    rw [hrange] at heq
    exact .inr ⟨p, n, items, found.1, found.2, rfl, hn, hitems, hrange, heq⟩

def withNamespace (ns : Value) : Object → Object
  | .document _ => .document ns
  | o => o

theorem setNamespace_apply (document : ObjectId) (ns : Value) (s : Store) :
    setNamespace document ns s = .ok () (s.update document (withNamespace ns)) := by
  have hmodify : ∀ g : Object → Object, (∀ o, g o = withNamespace ns o) →
      modify document g s = .ok () (s.update document (withNamespace ns)) := by
    intro g hg
    rw [funext hg]
    rfl
  exact hmodify _ fun o => by cases o <;> rfl

end Document

/-! ### Bindings -/

/-- A bound attribute with another value. -/
def Morph.setValue (v : Value) : Morph → Morph
  | .attribute key _ owner => .attribute key v owner
  | m => m

namespace Binding

theorem setValue_apply (id : ObjectId) (v : Value) (s : Store) :
    setValue id v s = .ok () (s.updateMorph id (Morph.setValue v)) := by
  have hvalue : withValue v = Object.mapMorph (Morph.setValue v) := by
    funext o
    cases o with
    | morph m added => cases m <;> rfl
    | _ => rfl
  rw [setValue, hvalue]
  rfl

theorem bind_apply (slot : ObjectId) (m : Morph) (s : Store) :
    bind slot m s = .ok () ((s.push (.morph m [])).updateNode slot
      (withShape (bound (.object s.next)))) :=
  (bind_of_ok (new_apply _ s)).trans (modifyShape_apply _ _ _)

theorem addModifier_ok {e : Element} (h : e.modifiers = .own items) (c : HelperCall)
    (s : Store) :
    addModifier e c s = .ok () ((s.push (.morph (.element c) [])).updateNode e.id
      (withShape (withModifiers (.own (items ++ [.object s.next]))))) := by
  refine (bind_of_ok (new_apply _ s)).trans ?_
  rw [h]
  exact modifyShape_apply _ _ _

end Binding

end TemplateRecovery
