import Mathlib.Data.Set.Basic
import TemplateRecovery.Machine.Call
import TemplateRecovery.Proofs.Frozen

/-!
# What running code can reach

Running code makes up no identities: it comes across an object only through a value that it was given,
through the parts of an object that it has come across already, or by making it. So two stores that
agree on a region which no object of it leads out of cannot be told apart by code that starts inside.
Both runs end in the same way, with the same result, and everything outside of the region is left as
it was.

The same walk through the interpreter tells what a run does to the registered template: only a call of
the registration function touches it, or an assignment to the place where it is kept.

* `Region` is a set of identities, `InRegion` says that a piece of data names nothing else.
* `Alike` are two stores that agree on a region.
* `Records` tells how a run may change the registered template.
* `Act.Relates` compares two actions on two stores, `Act.Local` one action with itself.
-/

namespace TemplateRecovery

open Store Object Act

variable {id : ObjectId} {owner v : Value} {entries : Entries} {fields added : Fields}
  {items : List Value} {c : HelperCall} {s s' t t' u : Store} {ending : Option Fault}

/-! ### Regions -/

/-- The identities of the objects that running code may come across. -/
abbrev Region := Set ObjectId

/-- Data that may name objects. -/
class Names (α : Type) where
  /-- The objects that a piece of data names directly. -/
  ids : α → List ObjectId

/-- Whether a piece of data names only objects of a region. -/
def InRegion {α : Type} [Names α] (r : Region) (a : α) : Prop := ∀ id ∈ Names.ids a, id ∈ r

instance : Names Unit := ⟨fun _ => []⟩
instance : Names Bool := ⟨fun _ => []⟩
instance : Names Nat := ⟨fun _ => []⟩
instance : Names Int := ⟨fun _ => []⟩
instance : Names Char := ⟨fun _ => []⟩
instance : Names String := ⟨fun _ => []⟩
instance : Names View := ⟨fun _ => []⟩
instance : Names Binary64 := ⟨fun _ => []⟩
instance : Names ObjectId := ⟨fun id => [id]⟩
instance : Names Value := ⟨fun v => v.root?.toList⟩

instance {α : Type} [Names α] : Names (List α) := ⟨fun xs => xs.flatMap Names.ids⟩
instance {α : Type} [Names α] : Names (Option α) := ⟨fun x => x.toList.flatMap Names.ids⟩
instance {α β : Type} [Names α] [Names β] : Names (α × β) := ⟨fun x => Names.ids x.1 ++ Names.ids x.2⟩

instance : Names (Held (List Value)) := ⟨fun h => Names.ids h.listed⟩
instance : Names (Held Entries) := ⟨fun h => Names.ids h.paired⟩
instance : Names HelperCall := ⟨fun c => Names.ids c.contents⟩
instance : Names Expression := ⟨fun e => Names.ids e.values⟩
instance : Names Morph := ⟨fun m => Names.ids m.values⟩
instance : Names Shape := ⟨fun x => Names.ids x.values⟩
instance : Names Node := ⟨fun n => Names.ids (n.shape.values ++ n.children.listed)⟩
instance : Names Function := ⟨fun f => Names.ids f.values⟩
instance : Names Object := ⟨fun o => Names.ids o.values⟩
instance : Names Document.Element :=
  ⟨fun e => e.id :: Names.ids (e.attributes.paired ++ (e.bound.listed ++ e.modifiers.listed))⟩

section InRegion

variable {α β : Type} [Names α] [Names β] {r r' : Region}

theorem InRegion.mono {a : α} (h : InRegion r a) (hr : r ⊆ r') : InRegion r' a :=
  fun id hid => hr (h id hid)

/-- Data without names are in every region. -/
theorem inRegion_of_ids {a : α} (h : Names.ids a = []) : InRegion r a := by
  intro id hid
  rw [h] at hid
  cases hid

@[simp] theorem inRegion_unit (a : Unit) : InRegion r a := inRegion_of_ids rfl
@[simp] theorem inRegion_bool (a : Bool) : InRegion r a := inRegion_of_ids rfl
@[simp] theorem inRegion_nat (a : Nat) : InRegion r a := inRegion_of_ids rfl
@[simp] theorem inRegion_int (a : Int) : InRegion r a := inRegion_of_ids rfl
@[simp] theorem inRegion_char (a : Char) : InRegion r a := inRegion_of_ids rfl
@[simp] theorem inRegion_string (a : String) : InRegion r a := inRegion_of_ids rfl
@[simp] theorem inRegion_view (a : View) : InRegion r a := inRegion_of_ids rfl
@[simp] theorem inRegion_double (a : Binary64) : InRegion r a := inRegion_of_ids rfl

@[simp] theorem inRegion_id : InRegion r id ↔ id ∈ r := by
  simp [InRegion, Names.ids]

@[simp] theorem inRegion_object : InRegion r (Value.object id) ↔ id ∈ r := by
  simp [InRegion, Names.ids, Value.root?]

@[simp] theorem inRegion_method {name : String} :
    InRegion r (Value.method owner name) ↔ InRegion r owner :=
  Iff.rfl

@[simp] theorem inRegion_null : InRegion r Value.null := inRegion_of_ids rfl
@[simp] theorem inRegion_boolValue (b : Bool) : InRegion r (Value.bool b) := inRegion_of_ids rfl
@[simp] theorem inRegion_intValue (n : Int) : InRegion r (Value.int n) := inRegion_of_ids rfl
@[simp] theorem inRegion_float (x : Binary64) : InRegion r (Value.float x) := inRegion_of_ids rfl
@[simp] theorem inRegion_nan (tag : Nat) : InRegion r (Value.nan tag) := inRegion_of_ids rfl
@[simp] theorem inRegion_str (t : String) : InRegion r (Value.str t) := inRegion_of_ids rfl
@[simp] theorem inRegion_moment (m : Moment) : InRegion r (Value.moment m) := inRegion_of_ids rfl
@[simp] theorem inRegion_label (l : Label) : InRegion r (Value.label l) := inRegion_of_ids rfl
@[simp] theorem inRegion_typeObject (t : String) : InRegion r (Value.typeObject t) :=
  inRegion_of_ids rfl
@[simp] theorem inRegion_builtin (t : String) : InRegion r (Value.builtin t) := inRegion_of_ids rfl
@[simp] theorem inRegion_registrar : InRegion r Value.registrar := inRegion_of_ids rfl

@[simp] theorem inRegion_capture : InRegion r Value.capture := inRegion_of_ids rfl
@[simp] theorem inRegion_foreign (a b : String) : InRegion r (Value.foreign a b) :=
  inRegion_of_ids rfl

@[simp] theorem inRegion_nil : InRegion r ([] : List α) := inRegion_of_ids rfl

@[simp] theorem inRegion_cons {a : α} {xs : List α} :
    InRegion r (a :: xs) ↔ InRegion r a ∧ InRegion r xs := by
  simp [InRegion, Names.ids, or_imp, forall_and]

@[simp] theorem inRegion_append {xs ys : List α} :
    InRegion r (xs ++ ys) ↔ InRegion r xs ∧ InRegion r ys := by
  simp [InRegion, Names.ids, or_imp, forall_and]

theorem inRegion_singleton (a : α) : InRegion r [a] ↔ InRegion r a := by
  simp

theorem inRegion_pair (a b : α) : InRegion r [a, b] ↔ InRegion r a ∧ InRegion r b := by
  simp

/-- A list is in a region when all its items are. -/
theorem inRegion_list {xs : List α} : InRegion r xs ↔ ∀ a ∈ xs, InRegion r a := by
  induction xs with
  | nil => simp
  | cons a xs ih => simp [ih]

theorem InRegion.subset {xs ys : List α} (h : InRegion r xs) (hys : ys ⊆ xs) : InRegion r ys :=
  inRegion_list.2 fun a ha => inRegion_list.1 h a (hys ha)

@[simp] theorem inRegion_none : InRegion r (none : Option α) := inRegion_of_ids rfl

@[simp] theorem inRegion_some {a : α} : InRegion r (some a) ↔ InRegion r a := by
  simp [InRegion, Names.ids]

@[simp] theorem inRegion_prod {a : α} {b : β} : InRegion r (a, b) ↔ InRegion r a ∧ InRegion r b := by
  simp [InRegion, Names.ids, or_imp, forall_and]

theorem inRegion_getD {x : Option α} {a : α} (hx : InRegion r x) (ha : InRegion r a) :
    InRegion r (x.getD a) := by
  cases x with
  | none => exact ha
  | some b => exact inRegion_some.1 hx

theorem inRegion_flatMap_pair :
    InRegion r (entries.flatMap fun (k, v) => [k, v]) ↔ InRegion r entries := by
  induction entries with
  | nil => simp
  | cons e rest ih =>
    obtain ⟨k, v⟩ := e
    simp [ih, and_assoc]

theorem inRegion_map_snd : InRegion r (fields.map (·.2)) ↔ InRegion r fields := by
  induction fields with
  | nil => simp
  | cons e rest ih =>
    obtain ⟨k, v⟩ := e
    simp [ih]

theorem inRegion_map_fst (h : InRegion r entries) : InRegion r (entries.map (·.1)) := by
  induction entries with
  | nil => simp
  | cons e rest ih =>
    obtain ⟨k, v⟩ := e
    simp only [inRegion_cons, inRegion_prod] at h
    simp [h.1.1, ih h.2]

theorem inRegion_named :
    InRegion r (fields.map fun (k, v) => ((.str k : Value), v)) ↔ InRegion r fields := by
  induction fields with
  | nil => simp
  | cons e rest ih =>
    obtain ⟨k, v⟩ := e
    simp [ih]

/-! ### Parts of objects -/

@[simp] theorem inRegion_ownItems : InRegion r (Held.own items) ↔ InRegion r items :=
  Iff.rfl

@[simp] theorem inRegion_sharedItems :
    InRegion r (Held.shared v : Held (List Value)) ↔ InRegion r v :=
  inRegion_singleton v

@[simp] theorem inRegion_ownEntries : InRegion r (Held.own entries) ↔ InRegion r entries :=
  inRegion_flatMap_pair

@[simp] theorem inRegion_sharedEntries : InRegion r (Held.shared v : Held Entries) ↔ InRegion r v :=
  inRegion_singleton v

theorem inRegion_listed {h : Held (List Value)} : InRegion r h.listed ↔ InRegion r h := Iff.rfl

theorem inRegion_paired {h : Held Entries} : InRegion r h.paired ↔ InRegion r h := Iff.rfl

@[simp] theorem inRegion_call {name : Value} {params : Held (List Value)} {hash : Held Entries} :
    InRegion r (⟨name, params, hash⟩ : HelperCall) ↔
      InRegion r name ∧ InRegion r params ∧ InRegion r hash := by
  rw [show InRegion r (⟨name, params, hash⟩ : HelperCall) ↔
    InRegion r (name :: (params.listed ++ hash.paired)) from Iff.rfl]
  simp [inRegion_listed, inRegion_paired]

theorem inRegion_contents : InRegion r c.contents ↔ InRegion r c := Iff.rfl

@[simp] theorem inRegion_literal : InRegion r (Expression.literal v) ↔ InRegion r v :=
  inRegion_singleton v

@[simp] theorem inRegion_path : InRegion r (Expression.path v) ↔ InRegion r v :=
  inRegion_singleton v

@[simp] theorem inRegion_concat {parts : Held (List Value)} :
    InRegion r (Expression.concat parts) ↔ InRegion r parts :=
  Iff.rfl

@[simp] theorem inRegion_subexpr : InRegion r (Expression.subexpr c) ↔ InRegion r c :=
  Iff.rfl

@[simp] theorem inRegion_inline : InRegion r (Morph.inline c) ↔ InRegion r c :=
  Iff.rfl

@[simp] theorem inRegion_modifier : InRegion r (Morph.element c) ↔ InRegion r c :=
  Iff.rfl

@[simp] theorem inRegion_attribute {key value : Value} :
    InRegion r (Morph.attribute key value owner) ↔
      InRegion r key ∧ InRegion r value ∧ InRegion r owner := by
  rw [show InRegion r (Morph.attribute key value owner) ↔ InRegion r [key, value, owner] from Iff.rfl]
  simp

@[simp] theorem inRegion_content : InRegion r (Morph.content v) ↔ InRegion r v :=
  inRegion_singleton v

@[simp] theorem inRegion_block {primary alternate : Value} :
    InRegion r (Morph.block c primary alternate) ↔
      InRegion r primary ∧ InRegion r alternate ∧ InRegion r c := by
  rw [show InRegion r (Morph.block c primary alternate) ↔
    InRegion r (primary :: alternate :: c.contents) from Iff.rfl]
  simp [inRegion_contents]

@[simp] theorem inRegion_fragment : InRegion r Shape.fragment := inRegion_of_ids rfl

@[simp] theorem inRegion_element {tag ns : Value} {attributes : Held Entries}
    {bound modifiers : Held (List Value)} :
    InRegion r (Shape.element tag ns attributes bound modifiers) ↔
      InRegion r tag ∧ InRegion r ns ∧ InRegion r attributes ∧ InRegion r bound ∧
        InRegion r modifiers := by
  rw [show InRegion r (Shape.element tag ns attributes bound modifiers) ↔
    InRegion r (tag :: ns :: (attributes.paired ++ (bound.listed ++ modifiers.listed))) from Iff.rfl]
  simp [inRegion_listed, inRegion_paired]

@[simp] theorem inRegion_text : InRegion r (Shape.text v) ↔ InRegion r v :=
  inRegion_singleton v

@[simp] theorem inRegion_comment : InRegion r (Shape.comment v) ↔ InRegion r v :=
  inRegion_singleton v

@[simp] theorem inRegion_placeholder {morph parent : Value} :
    InRegion r (Shape.placeholder morph parent) ↔ InRegion r morph ∧ InRegion r parent :=
  inRegion_pair morph parent

@[simp] theorem inRegion_node {shape : Shape} {children : Held (List Value)} :
    InRegion r (⟨shape, children⟩ : Node) ↔ InRegion r shape ∧ InRegion r children := by
  rw [show InRegion r (⟨shape, children⟩ : Node) ↔
    InRegion r (shape.values ++ children.listed) from Iff.rfl, inRegion_append]
  rfl

@[simp] theorem inRegion_routine {routine : Routine} : InRegion r (Function.routine routine) :=
  inRegion_of_ids rfl

@[simp] theorem inRegion_loader : InRegion r (Function.loader v) ↔ InRegion r v :=
  inRegion_singleton v

@[simp] theorem inRegion_refusal : InRegion r Function.refusal := inRegion_of_ids rfl

@[simp] theorem inRegion_listObject : InRegion r (list items) ↔ InRegion r items :=
  Iff.rfl

@[simp] theorem inRegion_tupleObject : InRegion r (tuple items) ↔ InRegion r items :=
  Iff.rfl

@[simp] theorem inRegion_mapObject : InRegion r (map entries) ↔ InRegion r entries :=
  inRegion_flatMap_pair

@[simp] theorem inRegion_recordObject : InRegion r (record fields) ↔ InRegion r fields :=
  inRegion_map_snd

@[simp] theorem inRegion_expressionObject {e : Expression} :
    InRegion r (expression e) ↔ InRegion r e :=
  Iff.rfl

@[simp] theorem inRegion_morphObject {m : Morph} :
    InRegion r (morph m added) ↔ InRegion r m ∧ InRegion r added := by
  rw [show InRegion r (morph m added) ↔ InRegion r (m.values ++ added.map (·.2)) from Iff.rfl,
    inRegion_append, inRegion_map_snd]
  rfl

@[simp] theorem inRegion_nodeObject {n : Node} :
    InRegion r (node n added) ↔ InRegion r n ∧ InRegion r added := by
  rw [show InRegion r (node n added) ↔
      InRegion r (n.shape.values ++ (n.children.listed ++ added.map (·.2))) from Iff.rfl,
    ← List.append_assoc, inRegion_append, inRegion_map_snd]
  rfl

@[simp] theorem inRegion_slotObject :
    InRegion r (slot owner added) ↔ InRegion r owner ∧ InRegion r added := by
  rw [show InRegion r (slot owner added) ↔ InRegion r (owner :: added.map (·.2)) from Iff.rfl,
    inRegion_cons, inRegion_map_snd]

@[simp] theorem inRegion_functionObject {f : Function} :
    InRegion r (function f added) ↔ InRegion r f ∧ InRegion r added := by
  rw [show InRegion r (function f added) ↔
    InRegion r (f.values ++ added.map (·.2)) from Iff.rfl, inRegion_append, inRegion_map_snd]
  rfl

@[simp] theorem inRegion_documentObject {ns : Value} : InRegion r (document ns) ↔ InRegion r ns :=
  inRegion_singleton ns

@[simp] theorem inRegion_hooksObject : InRegion r hooks := inRegion_of_ids rfl

@[simp] theorem inRegion_environmentObject {dom table : Value} :
    InRegion r (environment dom table) ↔ InRegion r dom ∧ InRegion r table :=
  inRegion_pair dom table

@[simp] theorem inRegion_documentElement {attributes : Held Entries}
    {bound modifiers : Held (List Value)} :
    InRegion r (⟨id, attributes, bound, modifiers⟩ : Document.Element) ↔
      id ∈ r ∧ InRegion r attributes ∧ InRegion r bound ∧ InRegion r modifiers := by
  rw [show InRegion r (⟨id, attributes, bound, modifiers⟩ : Document.Element) ↔
    ∀ x ∈ id :: Names.ids (attributes.paired ++ (bound.listed ++ modifiers.listed)), x ∈ r from Iff.rfl,
    List.forall_mem_cons]
  rw [show (∀ x ∈ Names.ids (attributes.paired ++ (bound.listed ++ modifiers.listed)), x ∈ r) ↔
    InRegion r (attributes.paired ++ (bound.listed ++ modifiers.listed)) from Iff.rfl]
  simp [inRegion_listed, inRegion_paired]

end InRegion

/-! ### Stores that agree on a region -/

/-- Two stores that agree on a region which nothing in it leads out of. Outside of it the objects may
differ, but they nest calls equally deep. -/
structure Alike (r : Region) (s s' : Store) : Prop where
  size : s'.objects.size = s.objects.size
  tag : s'.tag = s.tag
  registered : s'.registered = s.registered
  object : ∀ id ∈ r, s'.object? id = s.object? id
  closed : ∀ id ∈ r, ∀ o, s.object? id = some o → InRegion r o
  depth : ∀ id, (s'.object? id).map Object.depth = (s.object? id).map Object.depth

/-- A store agrees with itself everywhere. -/
theorem alike_refl (s : Store) : Alike Set.univ s s :=
  ⟨rfl, rfl, rfl, fun _ _ => rfl, fun _ _ _ _ _ _ => Set.mem_univ _, fun _ => rfl⟩

/-- Only the objects, the tag and the registered template count. -/
theorem Alike.of_eq {r : Region} (h : Alike r s s') (ho : t.objects = s.objects)
    (ho' : t'.objects = s'.objects) (htag : t'.tag = t.tag) (hreg : t'.registered = t.registered) :
    Alike r t t' where
  size := by rw [ho, ho', h.size]
  tag := htag
  registered := hreg
  object id hid := by rw [object?_of_objects_eq ho, object?_of_objects_eq ho', h.object id hid]
  closed id hid o hobj := h.closed id hid o (by rw [← object?_of_objects_eq ho]; exact hobj)
  depth id := by rw [object?_of_objects_eq ho, object?_of_objects_eq ho', h.depth id]

/-! ### The registered template -/

/-- One filling of the capture: a call fills an empty one, an assignment fills any. -/
inductive Fill : Option Value × List Filling → Option Value × List Filling → Prop
  | call (template : Value) (fillings : List Filling) :
      Fill (none, fillings) (some template, .call template :: fillings)
  | assignment (template : Value) (old : Option Value) (fillings : List Filling) :
      Fill (old, fillings) (some template, .assignment template :: fillings)

/-- The capture was filled in between, any number of times. -/
def Fills (s t : Store) : Prop :=
  Relation.ReflTransGen Fill (s.registered, s.fillings) (t.registered, t.fillings)

/-- What a run does to the registered template, by how it ends. No run ends for want of a template;
one that ends because of a second template has called the registration function once more, and the
template captured before stays. -/
def Records (s t : Store) : Option Fault → Prop
  | some .noRegistration => False
  | some .secondRegistration =>
    ∃ u, Fills s u ∧ ∃ first second, u.registered = some first ∧ t.registered = some first ∧
      t.fillings = .call second :: u.fillings
  | _ => Fills s t

/-- Whether a fault has nothing to do with registration. -/
def Fault.isOrdinary : Fault → Bool
  | .noRegistration => false
  | .secondRegistration => false
  | _ => true

theorem Fault.isOrdinary_ofShape (cause : ShapeFault) : (Fault.ofShape cause).isOrdinary = true := by
  unfold Fault.ofShape Fault.showing
  split <;> rfl

theorem fills_of_eq (hreg : t.registered = s.registered) (hfillings : t.fillings = s.fillings) :
    Fills s t := by
  rw [Fills, hreg, hfillings]

theorem Fills.trans (h : Fills s t) (h' : Fills t u) : Fills s u := Relation.ReflTransGen.trans h h'

theorem records_of_isOrdinary {fault : Fault} (hfault : fault.isOrdinary = true) :
    Records s t (some fault) ↔ Fills s t := by
  cases fault <;> first | exact Iff.rfl | cases hfault

/-- Only the capture counts. -/
theorem Records.of_eq (h : Records s t ending) (hreg : u.registered = t.registered)
    (hfillings : u.fillings = t.fillings) : Records s u ending := by
  cases ending with
  | none => exact Fills.trans h (fills_of_eq hreg hfillings)
  | some fault =>
    by_cases hfault : fault.isOrdinary = true
    · rw [records_of_isOrdinary hfault] at h ⊢
      exact h.trans (fills_of_eq hreg hfillings)
    · cases fault with
      | noRegistration => exact h
      | secondRegistration =>
        obtain ⟨v, hv, first, second, hfirst, hreg', hsecond⟩ := h
        exact ⟨v, hv, first, second, hfirst, hreg.trans hreg', hfillings.trans hsecond⟩
      | _ => exact absurd rfl hfault

theorem Fills.records (h : Fills s t) (h' : Records t u ending) : Records s u ending := by
  cases ending with
  | none => exact h.trans h'
  | some fault =>
    by_cases hfault : fault.isOrdinary = true
    · rw [records_of_isOrdinary hfault] at h' ⊢
      exact h.trans h'
    · cases fault with
      | noRegistration => exact h'
      | secondRegistration =>
        obtain ⟨v, hv, rest⟩ := h'
        exact ⟨v, h.trans hv, rest⟩
      | _ => exact absurd rfl hfault

/-! ### Outcomes of two runs -/

/-- How two runs that cannot be told apart have gone on: from stores that agree on `r` to stores that
agree on `r'`, which has grown by new objects only. What was outside of the region is as it was, and
tables of hooks stay what they are. -/
structure Outcome (r : Region) (s s' : Store) (r' : Region) (t t' : Store) (ending : Option Fault) :
    Prop where
  grows : r ⊆ r'
  fresh : ∀ id ∈ r', id ∈ r ∨ s.objects.size ≤ id.index ∧ id.index < t.objects.size
  size : s.objects.size ≤ t.objects.size
  alike : Alike r' t t'
  kept : ∀ id ∉ r, id.index < s.objects.size → t.object? id = s.object? id
  kept' : ∀ id ∉ r, id.index < s.objects.size → t'.object? id = s'.object? id
  hooks : ∀ id, s.object? id = some .hooks → t.object? id = some .hooks
  records : Records s t ending

theorem outcome_of_eq {r : Region} (h : Alike r s s') (ho : t.objects = s.objects)
    (ho' : t'.objects = s'.objects) (htag : t'.tag = t.tag) (hreg : t'.registered = t.registered)
    (hrec : Records s t ending) :
    Outcome r s s' r t t' ending where
  grows := subset_rfl
  fresh _ hid := .inl hid
  size := by rw [ho]
  alike := h.of_eq ho ho' htag hreg
  kept id _ _ := object?_of_objects_eq ho id
  kept' id _ _ := object?_of_objects_eq ho' id
  hooks id hid := (object?_of_objects_eq ho id).trans hid
  records := hrec

theorem Alike.outcome {r : Region} (h : Alike r s s') (hrec : Records s s ending) :
    Outcome r s s' r s s' ending :=
  outcome_of_eq h rfl rfl h.tag h.registered hrec

theorem Alike.outcome_refl {r : Region} (h : Alike r s s') : Outcome r s s' r s s' none :=
  h.outcome (fills_of_eq rfl rfl)

/-- The region does not grow by what was there before. -/
theorem Outcome.not_mem {r r' : Region} (o : Outcome r s s' r' t t' ending) (hid : id ∉ r)
    (hlt : id.index < s.objects.size) : id ∉ r' := by
  intro hmem
  rcases o.fresh id hmem with hmem | ⟨hle, -⟩
  · exact hid hmem
  · exact absurd hlt (Nat.not_lt.2 hle)

/-- One outcome after the other; how the whole ends is told by what it records. -/
theorem Outcome.followed {r r₁ r₂ : Region} {u' : Store} {first second : Option Fault}
    (h : Outcome r s s' r₁ t t' first) (h' : Outcome r₁ t t' r₂ u u' second)
    (hrec : Records s u ending) : Outcome r s s' r₂ u u' ending where
  grows := h.grows.trans h'.grows
  fresh id hid := by
    rcases h'.fresh id hid with hid | ⟨hle, hlt⟩
    · rcases h.fresh id hid with hid | ⟨hle, hlt⟩
      · exact .inl hid
      · exact .inr ⟨hle, lt_of_lt_of_le hlt h'.size⟩
    · exact .inr ⟨h.size.trans hle, hlt⟩
  size := h.size.trans h'.size
  alike := h'.alike
  kept id hid hlt := by
    rw [h'.kept id (h.not_mem hid hlt) (lt_of_lt_of_le hlt h.size), h.kept id hid hlt]
  kept' id hid hlt := by
    rw [h'.kept' id (h.not_mem hid hlt) (lt_of_lt_of_le hlt h.size), h.kept' id hid hlt]
  hooks id hid := h'.hooks id (h.hooks id hid)
  records := hrec

theorem Outcome.trans {r r₁ r₂ : Region} {u' : Store} (h : Outcome r s s' r₁ t t' none)
    (h' : Outcome r₁ t t' r₂ u u' ending) : Outcome r s s' r₂ u u' ending :=
  h.followed h' (Fills.records h.records h'.records)

/-- A region holds objects that are there, and none that are still to be made. -/
def Region.Within (r : Region) (s : Store) : Prop := ∀ id ∈ r, id.index < s.objects.size

theorem Region.Within.later {r r' : Region} (h : r.Within s) (o : Outcome r s s' r' t t' ending) :
    r'.Within t := by
  intro id hid
  rcases o.fresh id hid with hid | ⟨-, hlt⟩
  · exact lt_of_lt_of_le (h id hid) o.size
  · exact hlt

theorem Region.Within.next_not_mem {r : Region} (h : r.Within s) : s.next ∉ r :=
  fun hmem => lt_irrefl _ (h _ hmem)

/-! ### Comparing actions -/

namespace Act

variable {α β γ δ : Type}

/-- Two actions on two stores go on alike: both succeed, with results that belong together, or both
fail, with faults that belong together. -/
def Relates (faults : Fault → Fault → Prop) (results : Region → Store → Store → α → β → Prop)
    (r : Region) (s s' : Store) (x : Act α) (y : Act β) : Prop :=
  match x s, y s' with
  | .ok a t, .ok b t' => ∃ r', Outcome r s s' r' t t' none ∧ results r' t t' a b
  | .error e t, .error e' t' => faults e e' ∧ ∃ r', Outcome r s s' r' t t' (some e)
  | _, _ => False

variable {faults : Fault → Fault → Prop} {results : Region → Store → Store → α → β → Prop}
  {results' : Region → Store → Store → γ → δ → Prop} {r r' : Region} {s s' t t' : Store}

theorem relates_of_ok {x : Act α} {y : Act β} {a : α} {b : β}
    (hx : x s = .ok a t) (hy : y s' = .ok b t') (h : Outcome r s s' r' t t' none)
    (hab : results r' t t' a b) : Relates faults results r s s' x y := by
  unfold Relates
  rw [hx, hy]
  exact ⟨r', h, hab⟩

theorem relates_of_error {x : Act α} {y : Act β} {e e' : Fault}
    (hx : x s = .error e t) (hy : y s' = .error e' t') (he : faults e e')
    (h : Outcome r s s' r' t t' (some e)) : Relates faults results r s s' x y := by
  unfold Relates
  rw [hx, hy]
  exact ⟨he, r', h⟩

/-- The two ways in which related actions can end. -/
theorem Relates.cases {x : Act α} {y : Act β} (h : Relates faults results r s s' x y) :
    (∃ a t b t' r', x s = .ok a t ∧ y s' = .ok b t' ∧ Outcome r s s' r' t t' none ∧
      results r' t t' a b) ∨
      ∃ e t e' t' r', x s = .error e t ∧ y s' = .error e' t' ∧ faults e e' ∧
        Outcome r s s' r' t t' (some e) := by
  unfold Relates at h
  cases hx : x s with
  | ok a t =>
    cases hy : y s' with
    | ok b t' =>
      rw [hx, hy] at h
      obtain ⟨r', ho, hab⟩ := h
      exact .inl ⟨a, t, b, t', r', rfl, rfl, ho, hab⟩
    | error e' t' => rw [hx, hy] at h; exact h.elim
  | error e t =>
    cases hy : y s' with
    | ok b t' => rw [hx, hy] at h; exact h.elim
    | error e' t' =>
      rw [hx, hy] at h
      obtain ⟨he, r', ho⟩ := h
      exact .inr ⟨e, t, e', t', r', rfl, rfl, he, ho⟩

theorem Relates.bind {x : Act α} {y : Act β} {f : α → Act γ} {g : β → Act δ}
    (h : Relates faults results r s s' x y)
    (hfg : ∀ {a b r' t t'}, Outcome r s s' r' t t' none → results r' t t' a b →
      Relates faults results' r' t t' (f a) (g b)) :
    Relates faults results' r s s' (x >>= f) (y >>= g) := by
  rcases h.cases with ⟨a, t, b, t', r', hx, hy, ho, hab⟩ | ⟨e, t, e', t', r', hx, hy, he, ho⟩
  · rcases (hfg ho hab).cases with
      ⟨c, u, d, u', r₂, hf, hg, ho', hcd⟩ | ⟨e, u, e', u', r₂, hf, hg, he, ho'⟩
    · exact relates_of_ok (by rw [bind_of_ok hx, hf]) (by rw [bind_of_ok hy, hg]) (ho.trans ho') hcd
    · exact relates_of_error (by rw [bind_of_ok hx, hf]) (by rw [bind_of_ok hy, hg]) he (ho.trans ho')
  · exact relates_of_error (bind_of_error hx) (bind_of_error hy) he ho

theorem Relates.mono {faults' : Fault → Fault → Prop}
    {results' : Region → Store → Store → α → β → Prop} {x : Act α} {y : Act β}
    (h : Relates faults results r s s' x y) (hfaults : ∀ e e', faults e e' → faults' e e')
    (hresults : ∀ r' t t' a b, Outcome r s s' r' t t' none → results r' t t' a b →
      results' r' t t' a b) :
    Relates faults' results' r s s' x y := by
  rcases h.cases with ⟨a, t, b, t', r', hx, hy, ho, hab⟩ | ⟨e, t, e', t', r', hx, hy, he, ho⟩
  · exact relates_of_ok hx hy ho (hresults r' t t' a b ho hab)
  · exact relates_of_error hx hy (hfaults e e' he) ho

/-- Two actions that go on alike in all stores that two runs can go on to. -/
def RelatesLater (faults : Fault → Fault → Prop)
    (results : Region → Store → Store → α → β → Prop) (r : Region) (s s' : Store) (x : Act α)
    (y : Act β) : Prop :=
  ∀ ⦃r' t t'⦄, Outcome r s s' r' t t' none → Relates faults results r' t t' x y

theorem RelatesLater.now {x : Act α} {y : Act β} (h : RelatesLater faults results r s s' x y)
    (halike : Alike r s s') : Relates faults results r s s' x y :=
  h halike.outcome_refl

theorem RelatesLater.later {x : Act α} {y : Act β} (h : RelatesLater faults results r s s' x y)
    (ho : Outcome r s s' r' t t' none) : RelatesLater faults results r' t t' x y :=
  fun _ _ _ ho' => h (ho.trans ho')

/-- An action that looks at the store goes on with what it sees. -/
theorem relates_store {f : Store → Act α} {g : Store → Act β}
    (h : Relates faults results r s s' (f s) (g s')) :
    Relates faults results r s s' (store >>= f) (store >>= g) := h

/-- One result in a region, on both sides. -/
def Same [Names α] (r : Region) (_ _ : Store) (a b : α) : Prop := b = a ∧ InRegion r a

theorem Relates.bind_same [Names α] {x y : Act α} {f : α → Act γ} {g : α → Act δ}
    (h : Relates faults Same r s s' x y)
    (hfg : ∀ {a r' t t'}, Outcome r s s' r' t t' none → InRegion r' a →
      Relates faults results' r' t t' (f a) (g a)) :
    Relates faults results' r s s' (x >>= f) (y >>= g) :=
  Relates.bind h fun {a b r' t t'} ho hab => by
    obtain ⟨rfl, ha⟩ := hab
    exact hfg ho ha

/-- An action that cannot tell two stores apart: both runs end in the same way and with the same
result, which is inside the region. -/
def Local [Names α] (r : Region) (s s' : Store) (x : Act α) : Prop :=
  Relates Eq Same r s s' x x

section Local

variable [Names α] [Names β]

theorem Local.bind {x : Act α} {f : α → Act β} (h : x.Local r s s')
    (hf : ∀ {a r' t t'}, Outcome r s s' r' t t' none → InRegion r' a → (f a).Local r' t t') :
    (x >>= f).Local r s s' :=
  Relates.bind_same h hf

theorem Local.relates {x : Act α} (h : x.Local r s s') (hrefl : ∀ e, faults e e) :
    Relates faults Same r s s' x x :=
  Relates.mono h (fun e _ heq => heq ▸ hrefl e) fun _ _ _ _ _ _ hab => hab

/-- After an action that leaves the store alone, the region is still the same. -/
theorem Local.bind_after {x : Act α} {f g : α → Act β} (h : x.Local r s s') (hx : x.after s = s)
    (hfg : ∀ {a t'}, Alike r s t' → InRegion r a → Relates Eq Same r s t' (f a) (g a)) :
    Relates Eq Same r s s' (x >>= f) (x >>= g) := by
  rcases h.cases with ⟨a, t, b, t', r', hok, hok', ho, hab⟩ | ⟨e, t, e', t', r', he, he', heq, ho⟩
  · obtain ⟨rfl, ha⟩ := hab
    have ht : t = s := (after_of_ok hok).symm.trans hx
    subst ht
    have hr : r' = r := by
      refine Set.Subset.antisymm (fun id hid => ?_) ho.grows
      rcases ho.fresh id hid with hid | ⟨hle, hlt⟩
      · exact hid
      · omega
    subst hr
    rcases (hfg ho.alike ha).cases with
      ⟨c, u, d, u', r₂, hf, hg, ho', hcd⟩ | ⟨e, u, e', u', r₂, hf, hg, he, ho'⟩
    · exact relates_of_ok (by rw [bind_of_ok hok, hf]) (by rw [bind_of_ok hok', hg]) (ho.trans ho') hcd
    · exact relates_of_error (by rw [bind_of_ok hok, hf]) (by rw [bind_of_ok hok', hg]) he
        (ho.trans ho')
  · exact relates_of_error (bind_of_error he) (bind_of_error he') heq ho

theorem local_of_ok {x : Act α} {a : α} (hx : x s = .ok a t)
    (hx' : x s' = .ok a t') (h : Outcome r s s' r' t t' none) (ha : InRegion r' a) :
    x.Local r s s' :=
  relates_of_ok hx hx' h ⟨rfl, ha⟩

theorem local_of_error {x : Act α} {e : Fault} (hx : x s = .error e t)
    (hx' : x s' = .error e t') (h : Outcome r s s' r' t t' (some e)) : x.Local r s s' :=
  relates_of_error hx hx' rfl h

theorem local_store {f : Store → Act α} (hf : Relates Eq Same r s s' (f s) (f s')) :
    (store >>= f).Local r s s' :=
  relates_store hf

variable (h : Alike r s s')
include h

theorem local_pure {a : α} (ha : InRegion r a) : (pure a : Act α).Local r s s' :=
  local_of_ok rfl rfl (h.outcome (fills_of_eq rfl rfl)) ha

omit h in
theorem Local.then_null {x : Act α} (hx : x.Local r s s') :
    (x >>= fun _ => pure Value.null).Local r s s' :=
  hx.bind fun o _ => local_pure o.alike inRegion_null

theorem local_fail {fault : Fault} (hfault : fault.isOrdinary = true) :
    (fail fault : Act α).Local r s s' :=
  local_of_error rfl rfl
    (h.outcome ((records_of_isOrdinary hfault).2 (fills_of_eq rfl rfl)))

/-- A computation that needs no store may fail, but not for a reason of registration. -/
theorem local_lift {x : Except Fault α} (hok : ∀ a, x = .ok a → InRegion r a)
    (herror : ∀ e, x = .error e → e.isOrdinary = true) : (lift x).Local r s s' := by
  cases x with
  | ok a => exact local_pure h (hok a rfl)
  | error e => exact local_fail h (herror e rfl)

theorem local_note (e : Event) : (note e).Local r s s' :=
  local_of_ok rfl rfl (outcome_of_eq h rfl rfl h.tag h.registered (fills_of_eq rfl rfl)) (by simp)

theorem local_print (t : String) : (print t).Local r s s' :=
  local_of_ok rfl rfl (outcome_of_eq h rfl rfl h.tag h.registered (fills_of_eq rfl rfl)) (by simp)

theorem local_newFloat (x : Binary64) : (newFloat x).Local r s s' := by
  cases x with
  | nan =>
    have ho : Outcome r s s' r { s with tag := s.tag + 1 } { s' with tag := s'.tag + 1 } none :=
      outcome_of_eq h rfl rfl (congrArg (· + 1) h.tag) h.registered (fills_of_eq rfl rfl)
    refine local_of_ok (a := .nan s.tag) rfl ?_ ho (by simp)
    rw [← h.tag]
    rfl
  | _ => exact local_pure h (by simp)

end Local

end Act

/-! ### New and changed objects -/

theorem Alike.next {r : Region} (h : Alike r s s') : s'.next = s.next := by
  rw [Store.next, Store.next, h.size]

theorem Alike.push {r : Region} (h : Alike r s s') (o o' : Object) (hdepth : o'.depth = o.depth) :
    (∀ id, ((s'.push o').object? id).map Object.depth = ((s.push o).object? id).map Object.depth) ∧
      (∀ id ∈ r, id ≠ s.next → (s'.push o').object? id = (s.push o).object? id) := by
  constructor
  · intro id
    rw [object?_push, object?_push, h.next]
    split_ifs
    · simp [hdepth]
    · exact h.depth id
  · intro id hid hne
    rw [object?_push, object?_push, h.next, if_neg hne, if_neg hne, h.object id hid]

theorem Alike.outcome_push {r : Region} (h : Alike r s s') {o : Object} (ho : InRegion r o) :
    Outcome r s s' (insert s.next r) (s.push o) (s'.push o) none where
  grows := Set.subset_insert _ _
  fresh id hid := by
    rcases hid with rfl | hid
    · exact .inr ⟨le_rfl, by simp [Store.next]⟩
    · exact .inl hid
  size := by simp
  alike := by
    obtain ⟨hdepth, hobject⟩ := h.push o o rfl
    refine ⟨by simp [h.size], h.tag, h.registered, ?_, ?_, hdepth⟩
    · intro id hid
      by_cases hne : id = s.next
      · rw [object?_push, object?_push, h.next, if_pos hne, if_pos hne]
      · exact hobject id (hid.resolve_left hne) hne
    · intro id hid p hp
      rw [object?_push] at hp
      split_ifs at hp with hne
      · cases hp
        exact ho.mono (Set.subset_insert _ _)
      · exact (h.closed id (hid.resolve_left hne) p hp).mono (Set.subset_insert _ _)
  kept id hid hlt := by
    rw [object?_push, if_neg]
    rintro rfl
    exact absurd hlt (lt_irrefl _)
  kept' id hid hlt := by
    rw [object?_push, if_neg]
    rintro rfl
    rw [h.next] at hlt
    exact absurd hlt (lt_irrefl _)
  hooks id hid := object?_push_of_some hid o
  records := fills_of_eq rfl rfl

/-- An object of the region changes in the same way on both sides. -/
theorem Alike.outcome_update {r : Region} (h : Alike r s s') (hid : id ∈ r) {f f' : Object → Object}
    (hf : ∀ o, s.object? id = some o → f' o = f o ∧ InRegion r (f o))
    (hhooks : s.object? id = some .hooks → f .hooks = .hooks := by exact fun _ => rfl) :
    Outcome r s s' r (s.update id f) (s'.update id f') none where
  grows := subset_rfl
  fresh _ hid := .inl hid
  size := by simp
  alike := by
    have hmap : (s'.object? id).map f' = (s.object? id).map f := by
      rw [h.object id hid]
      cases ho : s.object? id with
      | none => rfl
      | some o => rw [Option.map_some, Option.map_some, (hf o ho).1]
    have hobject : ∀ x, s'.object? x = s.object? x →
        (s'.update id f').object? x = (s.update id f).object? x := by
      intro x hx
      rw [object?_update, object?_update]
      split_ifs with hxid
      · rw [hxid, hmap]
      · exact hx
    refine ⟨by simp [h.size], h.tag, h.registered, fun x hx => hobject x (h.object x hx), ?_, ?_⟩
    · intro x hx p hp
      rw [object?_update] at hp
      split_ifs at hp with hxid
      · subst hxid
        obtain ⟨o, hobj, rfl⟩ := Option.map_eq_some_iff.1 hp
        exact (hf o hobj).2
      · exact h.closed x hx p hp
    · intro x
      by_cases hxid : x = id
      · rw [hobject x (hxid ▸ h.object id hid)]
      · rw [object?_update, object?_update, if_neg hxid, if_neg hxid, h.depth x]
  kept x hx _ := by
    rw [object?_update, if_neg]
    rintro rfl
    exact hx hid
  kept' x hx _ := by
    rw [object?_update, if_neg]
    rintro rfl
    exact hx hid
  hooks x hx := by
    rw [object?_update]
    split_ifs with hxid
    · subst hxid
      rw [hx, Option.map_some, hhooks hx]
    · exact hx
  records := fills_of_eq rfl rfl

namespace Act

variable {r : Region} {s s' : Store}

theorem local_new (h : Alike r s s') {o : Object} (ho : InRegion r o) : (new o).Local r s s' := by
  refine local_of_ok (a := .object s.next) rfl ?_ (h.outcome_push ho) (by simp)
  rw [← h.next]
  rfl

theorem local_modify (h : Alike r s s') (hid : id ∈ r) {f : Object → Object}
    (hf : ∀ o, s.object? id = some o → InRegion r (f o))
    (hhooks : s.object? id = some .hooks → f .hooks = .hooks := by exact fun _ => rfl) :
    (modify id f).Local r s s' :=
  local_of_ok rfl rfl (h.outcome_update hid (fun o ho => ⟨rfl, hf o ho⟩) hhooks) (by simp)

/-- The registration function takes one template, and then no other. -/
theorem local_register (h : Alike r s s') {template : Value} (hv : InRegion r template) :
    (register template).Local r s s' := by
  cases hreg : s.registered with
  | none =>
    have ho : Outcome r s s' r
        { s with registered := some template, fillings := .call template :: s.fillings,
                 log := s.log.push (.registered (s.typeName template)) }
        { s' with registered := some template, fillings := .call template :: s'.fillings,
                  log := s'.log.push (.registered (s'.typeName template)) } none :=
      outcome_of_eq h rfl rfl h.tag rfl (.single (hreg ▸ .call template s.fillings))
    exact local_of_ok (by simp [register, hreg]) (by simp [register, h.registered, hreg]) ho hv
  | some first =>
    have ho : Outcome r s s' r { s with fillings := .call template :: s.fillings }
        { s' with fillings := .call template :: s'.fillings } (some .secondRegistration) :=
      outcome_of_eq h rfl rfl h.tag h.registered
        ⟨s, fills_of_eq rfl rfl, first, template, hreg, hreg, rfl⟩
    exact local_of_error (by simp [register, hreg]) (by simp [register, h.registered, hreg]) ho

end Act

end TemplateRecovery
