import TemplateRecovery.Environment.Query
import TemplateRecovery.Proofs.Action

/-!
# Where alias paths lead

Definitions are made one after the other, and each one sets one link: the last one on its path. A
path therefore leads to the registration surface for as long as no definition sets a link that it runs
through to something else. A definition that ends in such a link *cuts* the path, as `a` cuts `a.b`.

* `Store.link?` is what a container holds under a name.
* `Alias.Traces` lists the links that one definition runs through, `Environment.History` all
  definitions that are made while an environment is built.
* `Alias.Traces.keeps` says which links a definition leaves as they are.
* `aliases_lead_to_surface` says that every path that is not cut leads to the registration surface.
-/

namespace TemplateRecovery

open Environment Store Alias

variable {o : Object} {s t : Store} {v c w root : Value} {id : ObjectId} {name : String}

/-! ### Links -/

/-- The objects that plain data, attribute objects and functions are. -/
def Object.isData : Object → Bool
  | .list _ => true
  | .tuple _ => true
  | .map _ => true
  | .record _ => true
  | .function _ _ => true
  | _ => false

/-- The objects that have links: mappings and attribute objects. -/
def Object.isPlain : Object → Bool
  | .map _ => true
  | .record _ => true
  | _ => false

def Object.isRecord : Object → Bool
  | .record _ => true
  | _ => false

theorem Object.isData_of_isPlain (h : o.isPlain = true) : o.isData = true := by
  cases o <;> first | rfl | cases h

namespace Store

/-- A store without nodes, morphs, expressions and the objects of running templates. -/
def HoldsData (s : Store) : Prop := ∀ id o, s.object? id = some o → o.isData = true

/-- What a mapping or an attribute object holds under a name. -/
def link? (s : Store) (v : Value) (name : String) : Option Value :=
  match s.asObject? v with
  | some (_, .map entries) => s.findName? name entries
  | some (_, .record fields) => fields.lookup name
  | _ => none

/-- A name is one key with nothing but itself. -/
theorem sameKey_name (s : Store) (k : Value) (name : String) :
    s.sameKey k (.str name) = (k == .str name) := by
  have hplain : k.samePlain (.str name) = false := by
    cases k <;> rfl
  rw [sameKey, sameWithin]
  by_cases hk : (k == .str name) = true
  · rw [if_pos hk, hk]
  · rw [if_neg hk, Bool.eq_false_iff.2 hk]
    cases s.asObject? k with
    | none => exact hplain
    | some p =>
      obtain ⟨id, o⟩ := p
      cases o with
      | expression e => cases e <;> exact hplain
      | _ => exact hplain

theorem findName?_eq_lookup (s : Store) (name : String) (entries : Entries) :
    s.findName? name entries = entries.lookup (.str name) := by
  induction entries with
  | nil => rfl
  | cons e rest ih =>
    rw [findName?, find?] at ih ⊢
    rw [Assoc.find?, sameKey_name, List.lookup_cons, ih, BEq.comm]
    cases Value.str name == e.1 <;> rfl

/-- Which entry a name has does not depend on the store. -/
theorem findName?_eq (s t : Store) (name : String) (entries : Entries) :
    s.findName? name entries = t.findName? name entries := by
  rw [findName?_eq_lookup, findName?_eq_lookup]

theorem insert_name (s : Store) (name : String) (v : Value) (entries : Entries) :
    s.insert (.str name) v entries = Assoc.insert (· == ·) (.str name) v entries := by
  rw [insert]
  induction entries with
  | nil => rfl
  | cons e rest ih => rw [Assoc.insert, Assoc.insert, ih, sameKey_name]

theorem findName?_insert (s t : Store) (name x : String) (v : Value) (entries : Entries) :
    t.findName? x (s.insert (.str name) v entries) =
      if x = name then some v else t.findName? x entries := by
  rw [findName?_eq_lookup, findName?_eq_lookup, insert_name, Assoc.lookup_insert]
  simp

theorem link?_object (s : Store) (id : ObjectId) (name : String) : s.link? (.object id) name =
      match s.object? id with
      | some (.map entries) => s.findName? name entries
      | some (.record fields) => fields.lookup name
      | _ => none := by
  rw [link?, asObject?]
  cases s.object? id with
  | none => rfl
  | some o => cases o <;> rfl

theorem link?_of_object?_eq (h : t.object? id = s.object? id) (name : String) :
    t.link? (.object id) name = s.link? (.object id) name := by
  rw [link?_object, link?_object, h]
  split <;> first | rfl | exact findName?_eq _ _ _ _

/-- A value that is a mapping or an attribute object. -/
def IsPlain (s : Store) (v : Value) : Prop :=
  ∃ id o, v = .object id ∧ s.object? id = some o ∧ o.isPlain = true

theorem isPlain_of_link? (h : s.link? v name = some w) : s.IsPlain v := by
  cases v with
  | object id =>
    rw [link?_object] at h
    cases ho : s.object? id with
    | none => rw [ho] at h; cases h
    | some o =>
      refine ⟨id, o, rfl, ho, ?_⟩
      rw [ho] at h
      cases o <;> first | rfl | cases h
  | _ => cases h

end Store

/-! ### Setting a link -/

namespace Alias

theorem isContainer_object (s : Store) (id : ObjectId) : isContainer s (.object id) =
      match s.object? id with
      | some (.map _) => true
      | some (.function _ _) => false
      | some o => Attribute.hasTable o
      | none => false := by
  simp only [isContainer, entries?, Attribute.isOpen, asObject?]
  cases s.object? id with
  | none => rfl
  | some o => cases o <;> rfl

/-- What a path can run through among data. -/
theorem container_cases (hs : s.HoldsData) (hv : isContainer s v = true) :
    (∃ l, v = .label l) ∨ s.IsPlain v := by
  cases v with
  | label l => exact .inl ⟨l, rfl⟩
  | object id =>
    rw [isContainer_object] at hv
    cases ho : s.object? id with
    | none => rw [ho] at hv; cases hv
    | some o =>
      have hdata := hs id o ho
      rw [ho] at hv
      cases o with
      | map _ | record _ => exact .inr ⟨id, _, rfl, ho, rfl⟩
      | list _ | tuple _ | function _ _ => cases hv
      | _ => cases hdata
  | _ => cases hv

/-- A store in which data are still data, containers still open and functions what they were. -/
structure Keeps (s t : Store) : Prop where
  data : t.HoldsData
  containers : ∀ v, isContainer s v = true → isContainer t v = true
  functions : ∀ id f added, s.object? id = some (.function f added) →
    t.object? id = some (.function f added)

theorem Keeps.trans {u : Store} (h : Keeps s t) (h' : Keeps t u) : Keeps s u :=
  ⟨h'.data, fun v hv => h'.containers v (h.containers v hv), fun id f added hid =>
    h'.functions id f added (h.functions id f added hid)⟩

/-- A store in which one link is set. -/
structure Sets (s t : Store) (container : Value) (name : String) (x : Value) : Prop
    extends Keeps s t where
  link : ∀ v n, t.link? v n = if v = container ∧ n = name then some x else s.link? v n

/-- Refusing an assignment always fails. -/
theorem refuse_ne_ok (v : Value) (name : String) (s t : Store) :
    Attribute.refuse v name s ≠ .ok () t := by
  intro h
  rw [Attribute.refuse, Act.bind_store] at h
  split at h
  · cases h
  · split at h
    · cases h
    · split at h
      · cases h
      · cases h
      · split at h
        · cases h
        · obtain ⟨fault, hfault⟩ := Act.noAttribute_eq (α := Unit) v name s
          rw [hfault] at h
          cases h

theorem items?_record (name : String) (fields : Fields) : Field.items? name (.record fields) = none := by
  unfold Field.items?
  split <;> first | rfl | simp_all

theorem entries?_record (name : String) (fields : Fields) :
    Field.entries? name (.record fields) = none := by
  unfold Field.entries?
  split <;> first | rfl | simp_all

theorem assigned_record (name : String) (x : Value) (fields : Fields) :
    Field.assigned name x (.record fields) = .record (Assoc.set name x fields) := by
  rw [Field.assigned, items?_record, entries?_record]
  rfl

/-- Binding a name of a mapping or of an attribute object changes that object, and of its links only the
one under the name. -/
theorem setMember_plain (ho : s.object? id = some o) (hplain : o.isPlain = true) (name : String)
    (x : Value) :
    ∃ f, setMember (.object id) name x s = .ok () (s.update id f) ∧ (f o).isPlain = true ∧
      ∀ t : Store, t.object? id = some (f o) → ∀ n, t.link? (.object id) n =
        if n = name then some x else s.link? (.object id) n := by
  cases o with
  | map entries =>
    have hentries : s.entries? (.object id) = some entries := by
      rw [entries?, asObject?_of_object? ho]
    have hkey : s.isKey (.str name) = true := rfl
    refine ⟨Container.withEntry s (.str name) x, ?_, rfl, fun t ht n => ?_⟩
    · rw [setMember, Act.bind_store, hentries]
      simp only [Container.setItem, Act.bind_store, asObject?_of_object? ho, hkey, if_true]
      rfl
    · rw [link?_object, ht, link?_object, ho]
      exact (findName?_insert s t name n x entries).trans
        (by rw [findName?_eq t s])
  | record fields =>
    have hentries : s.entries? (.object id) = none := by
      rw [entries?, asObject?_of_object? ho]
    refine ⟨Field.assigned name x, ?_, ?_, fun t ht n => ?_⟩
    · rw [setMember, Act.bind_store, hentries]
      simp only [Attribute.set, Act.bind_store, asObject?_of_object? ho]
      rfl
    · rw [assigned_record]
      rfl
    · rw [assigned_record] at ht
      rw [link?_object, ht, link?_object, ho]
      exact Assoc.lookup_set name n x fields
  | _ => cases hplain

theorem isContainer_of_isPlain (h : s.IsPlain v) : isContainer s v = true := by
  obtain ⟨id, o, rfl, ho, hplain⟩ := h
  rw [isContainer_object, ho]
  cases o <;> first | rfl | cases hplain

/-- A store in which one link of one container is set. -/
structure Relinks (s t : Store) (c : Value) (name : String) (x : Value) : Prop where
  size : t.objects.size = s.objects.size
  plain : ∀ v, s.IsPlain v → t.IsPlain v
  link : ∀ v n, t.link? v n = if v = c ∧ n = name then some x else s.link? v n
  other : ∀ id, c ≠ .object id → t.object? id = s.object? id

theorem setMember_of_isPlain (hc : s.IsPlain c) (name : String) (x : Value) :
    ∃ t, setMember c name x s = .ok () t ∧ Relinks s t c name x := by
  obtain ⟨id, o, rfl, ho, hplain⟩ := hc
  obtain ⟨f, hset, hf, hlink⟩ := setMember_plain ho hplain name x
  have hself : (s.update id f).object? id = some (f o) := by
    rw [object?_update, if_pos rfl, ho, Option.map_some]
  have hother {y : ObjectId} (hy : y ≠ id) : (s.update id f).object? y = s.object? y := by
    rw [object?_update, if_neg hy]
  refine ⟨s.update id f, hset, by simp, ?_, ?_, ?_⟩
  · rintro v ⟨y, p, rfl, hp, hplain'⟩
    by_cases hy : y = id
    · exact ⟨y, f o, rfl, hy ▸ hself, hf⟩
    · exact ⟨y, p, rfl, (hother hy).trans hp, hplain'⟩
  · intro v n
    cases v with
    | object y =>
      by_cases hy : y = id
      · subst hy
        rw [hlink _ hself n]
        simp
      · rw [link?_of_object?_eq (hother hy), if_neg (by simp [hy])]
    | _ => exact (if_neg (by simp)).symm
  · intro y hy
    refine hother ?_
    rintro rfl
    exact hy rfl

/-- Binding a name sets one link and leaves all others. -/
theorem setMember_sets {x : Value} (hs : s.HoldsData) (hc : isContainer s c = true)
    (h : setMember c name x s = .ok () t) : Sets s t c name x := by
  obtain ⟨l, rfl⟩ | hplain := container_cases hs hc
  · rw [setMember, Act.bind_store] at h
    exact absurd h (refuse_ne_ok _ _ _ _)
  obtain ⟨u, hset, hu⟩ := setMember_of_isPlain hplain name x
  rw [hset] at h
  cases h
  obtain ⟨id, o, rfl, ho, ho'⟩ := hplain
  obtain ⟨_, p, ⟨⟩, hp, hp'⟩ := hu.plain _ ⟨id, o, rfl, ho, ho'⟩
  have hother {y : ObjectId} (hy : y ≠ id) : t.object? y = s.object? y :=
    hu.other y (by simpa using Ne.symm hy)
  refine ⟨⟨fun y q hq => ?_, fun v hv => ?_, fun y g added hy => ?_⟩, hu.link⟩
  · by_cases hy : y = id
    · rw [hy, hp, Option.some.injEq] at hq
      exact hq ▸ Object.isData_of_isPlain hp'
    · exact hs y q (hother hy ▸ hq)
  · cases v with
    | object y =>
      by_cases hy : y = id
      · exact isContainer_of_isPlain ⟨y, p, rfl, hy ▸ hp, hp'⟩
      · rw [isContainer_object, hother hy, ← isContainer_object]
        exact hv
    | _ => exact hv
  · rw [hother, hy]
    rintro rfl
    rw [ho, Option.some.injEq] at hy
    rw [hy] at ho'
    cases ho'

/-! ### Entering a container -/

/-- What is computed from an object or a label is nothing that a path can run through. -/
theorem part?_not_container (hv : (∃ id, v = .object id) ∨ ∃ l, v = .label l)
    (h : Attribute.part? v name = some w) : isContainer s w = false := by
  obtain ⟨id, rfl⟩ | ⟨l, rfl⟩ := hv
  · cases h
  · unfold Attribute.part? at h
    simp only at h
    split at h <;> cases h <;> rfl

/-- What every value of a type has is nothing that a path can run through. -/
theorem typeMember?_not_container (hv : (∃ id, v = .object id) ∨ ∃ l, v = .label l)
    (h : Attribute.typeMember? s v name = some w) : isContainer s w = false := by
  unfold Attribute.typeMember? at h
  simp only at h
  split_ifs at h
  · cases h
    rfl
  · cases h
    rfl
  all_goals
    rw [Option.or_eq_some_iff, Option.or_eq_some_iff] at h
    obtain (h | ⟨-, h⟩) | ⟨-, h⟩ := h
    · exact part?_not_container hv h
    · obtain ⟨id, rfl⟩ | ⟨l, rfl⟩ := hv <;> cases h
    · cases h <;> rfl

/-- The names that every attribute object has, whatever its fields are. -/
def inherentNames : List String := ["__dict__", "__class__", "__doc__"] ++ Attribute.common

theorem typeMember?_of_isRecord (ho : s.object? id = some o) (hrecord : o.isRecord = true)
    (hname : name ∉ inherentNames) : Attribute.typeMember? s (.object id) name = none := by
  simp only [inherentNames, List.mem_append, List.mem_cons, List.not_mem_nil, or_false,
    not_or] at hname
  obtain ⟨⟨-, hclass, -⟩, hcommon⟩ := hname
  have hhash : name ≠ "__hash__" := by
    rintro rfl
    exact hcommon (by decide)
  cases o with
  | record fields =>
    have hmethod : Attribute.hasMethod s (.object id) name = false := by
      simp [Attribute.hasMethod, typeName, ho, asObject?_of_object? ho, Object.typeName,
        Attribute.methods, Attribute.partMethods, hcommon]
    simp [Attribute.typeMember?, hclass, hhash, Attribute.part?, Attribute.descriptor?, hmethod]
  | _ => cases hrecord

/-- What a mapping or an attribute object has under a name: the link, or something of its type. -/
theorem member_plain (ho : s.object? id = some o) (hplain : o.isPlain = true)
    (hname : name ≠ "__dict__") :
    member (.object id) name s = .ok ((s.link? (.object id) name).getD .null) s ∨
      s.link? (.object id) name = none ∧ o.isRecord = true ∧ member (.object id) name s =
        .ok ((Attribute.typeMember? s (.object id) name).getD .null) s := by
  cases o with
  | map entries =>
    have hentries : s.entries? (.object id) = some entries := by
      rw [entries?, asObject?_of_object? ho]
    refine .inl ?_
    rw [member, Act.bind_store, hentries, link?_object, ho]
    rfl
  | record fields =>
    have hentries : s.entries? (.object id) = none := by
      rw [entries?, asObject?_of_object? ho]
    have hread : Field.read? id (.record fields) name = return fields.lookup name := by
      rw [Field.read?, items?_record, entries?_record, Field.value?]
      cases fields.lookup name <;> rfl
    have hfind : Attribute.find? (.object id) name s =
        .ok ((fields.lookup name).or (Attribute.typeMember? s (.object id) name)) s := by
      rw [Attribute.find?, Act.bind_store, asObject?_of_object? ho]
      simp only [hread, pure_bind]
      cases fields.lookup name with
      | none =>
        simp only [hname, false_and, if_false]
        rfl
      | some w => rfl
    have hmember : member (.object id) name s =
        .ok (((fields.lookup name).or (Attribute.typeMember? s (.object id) name)).getD .null) s := by
      rw [member, Act.bind_store, hentries]
      simp only
      rw [Act.bind_of_ok hfind]
      rfl
    rw [link?_object, ho, hmember]
    simp only
    cases fields.lookup name with
    | none => exact .inr ⟨rfl, rfl, rfl⟩
    | some w => exact .inl rfl
  | _ => cases hplain

/-- What a container holds under a name: the link, or something that a path cannot run through. -/
theorem member_eq (hs : s.HoldsData) (hc : isContainer s c = true) (hname : name ≠ "__dict__") :
    ∃ w, member c name s = .ok w s ∧ (s.link? c name = some w ∨
        s.link? c name = none ∧ (isUnset w = true ∨ isContainer s w = false)) := by
  -- what is found in a type gives way, or is in the way
  have htype : ((∃ id, c = .object id) ∨ ∃ l, c = .label l) →
      isUnset ((Attribute.typeMember? s c name).getD .null) = true ∨
        isContainer s ((Attribute.typeMember? s c name).getD .null) = false := by
    intro hv
    cases h : Attribute.typeMember? s c name with
    | none => exact .inl rfl
    | some w => exact .inr (typeMember?_not_container hv h)
  obtain ⟨l, rfl⟩ | ⟨id, o, rfl, ho, hplain⟩ := container_cases hs hc
  · exact ⟨_, rfl, .inr ⟨rfl, htype (.inr ⟨l, rfl⟩)⟩⟩
  obtain hmember | ⟨hnone, -, hmember⟩ := member_plain ho hplain hname
  · refine ⟨_, hmember, ?_⟩
    cases s.link? (.object id) name with
    | none => exact .inr ⟨rfl, .inl rfl⟩
    | some w => exact .inl rfl
  · exact ⟨_, hmember, .inr ⟨hnone, htype (.inl ⟨id, rfl⟩)⟩⟩

/-- A store in which every link to something is as it was. -/
structure Grows (s t : Store) : Prop extends Keeps s t where
  link : ∀ {v n x}, s.link? v n = some x → isUnset x = false → t.link? v n = some x

theorem grows_of_extends (h : s.Extends t) (ht : t.HoldsData) : Grows s t := by
  refine ⟨⟨ht, fun v hv => ?_, fun id f added hid => h id _ hid⟩, fun {v n x} hlink _ => ?_⟩
  · cases v with
    | object id =>
      rw [isContainer_object] at hv ⊢
      cases hid : s.object? id with
      | none => rw [hid] at hv; cases hv
      | some p => rw [h id p hid, ← hid]; exact hv
    | _ => exact hv
  · cases v with
    | object id =>
      cases hid : s.object? id with
      | none => rw [link?_object, hid] at hlink; cases hlink
      | some p => exact (link?_of_object?_eq ((h id p hid).trans hid.symm) n).trans hlink
    | _ => cases hlink

theorem grows_push (hs : s.HoldsData) (ho : o.isData = true) : Grows s (s.push o) := by
  refine grows_of_extends (extends_push s o) fun id p hp => ?_
  rw [object?_push] at hp
  split_ifs at hp
  · exact Option.some.inj hp ▸ ho
  · exact hs id p hp

theorem grows_noted (hs : s.HoldsData) (e : Event) : Grows s (s.noted e) :=
  grows_of_extends (extends_of_objects_eq rfl) hs

/-- Entering a container makes a link only where there was none. -/
theorem enter_ok {path : String} {next : Value} (hs : s.HoldsData) (hc : isContainer s c = true)
    (hname : name ≠ "__dict__") (h : enter path c name s = .ok next t) :
    Grows s t ∧ t.link? c name = some next ∧ isUnset next = false ∧ isContainer t next = true := by
  obtain ⟨w, hmember, hw⟩ := member_eq hs hc hname
  rw [enter, Act.bind_of_ok hmember, Act.bind_store] at h
  by_cases hunset : isUnset w = true
  · rw [if_pos hunset, Act.bind_of_ok (Act.new_apply _ s)] at h
    obtain ⟨_, u, hset, hnext⟩ := Act.ok_of_bind h
    have hnew := grows_push hs (o := .record []) rfl
    have hsets := setMember_sets hnew.data (hnew.containers c hc) hset
    cases hnext
    refine ⟨⟨hnew.toKeeps.trans hsets.toKeeps, ?_⟩, ?_, rfl, ?_⟩
    · intro v n x hlink hx
      rw [hsets.link, if_neg, hnew.link hlink hx]
      -- a link to something is not where the new object goes
      rintro ⟨rfl, rfl⟩
      rcases hw with hw | ⟨hw, -⟩
      · rw [hlink, Option.some.injEq] at hw
        rw [hw, hunset] at hx
        cases hx
      · rw [hlink] at hw
        cases hw
    · rw [hsets.link, if_pos ⟨rfl, rfl⟩]
    · refine hsets.containers _ ?_
      rw [isContainer_object, object?_push_next]
      rfl
  · rw [if_neg hunset] at h
    by_cases hopen : isContainer s w = true
    · rw [if_pos hopen] at h
      cases h
      refine ⟨grows_of_extends (extends_refl s) hs, ?_, Bool.eq_false_iff.2 hunset, hopen⟩
      rcases hw with hw | ⟨-, hw | hw⟩
      · exact hw
      · exact absurd hw hunset
      · rw [hw] at hopen
        cases hopen
    · rw [if_neg hopen] at h
      cases h

/-! ### The links of a definition -/

/-- A link of a path: under a name, a container holds a value. -/
structure Link where
  container : Value
  name : String
  value : Value

/-- The links that a definition runs through, from a container by the given names; the last one it
sets itself. -/
inductive Traces (path : String) (v : Value) :
    Value → List String → Store → List Link → Store → Prop
  | last {c : Value} {name : String} {s t : Store} (h : setMember c name v s = .ok () t) :
      Traces path v c [name] s [⟨c, name, v⟩] t
  | enter {c next : Value} {name : String} {rest : List String} {s u t : Store} {links : List Link}
      (h : enter path c name s = .ok next u) (hrest : Traces path v next rest u links t) :
      Traces path v c (name :: rest) s (⟨c, name, next⟩ :: links) t

theorem traces_of_defineFrom {path : String} {rest : List String}
    (h : defineFrom path v c (name :: rest) s = .ok () t) :
    ∃ links, Traces path v c (name :: rest) s links t := by
  induction rest generalizing c name s with
  | nil => exact ⟨_, .last h⟩
  | cons second rest ih =>
    obtain ⟨next, u, henter, hrest⟩ := Act.ok_of_bind h
    obtain ⟨links, hlinks⟩ := ih hrest
    exact ⟨_, .enter henter hlinks⟩

/-- Whether the last of some links sets one of another path to something else. -/
def Overwrites (links : List Link) (l : Link) : Prop :=
  ∃ last ∈ links.getLast?, last.container = l.container ∧ last.name = l.name ∧ last.value ≠ l.value

variable {path : String} {v c : Value} {names : List String} {s t : Store} {links : List Link}

theorem Traces.links_ne_nil (h : Traces path v c names s links t) : links ≠ [] := by
  cases h <;> simp

theorem overwrites_cons {l k : Link} (hlinks : links ≠ []) :
    Overwrites (l :: links) k ↔ Overwrites links k := by
  obtain ⟨m, rest, rfl⟩ := List.exists_cons_of_ne_nil hlinks
  simp only [Overwrites, List.getLast?_cons_cons]

/-- **Step.** A definition leaves every link to something as it was, unless it ends there, and its own
links are there unless it ends in one of them. -/
theorem Traces.keeps (h : Traces path v c names s links t) (hs : s.HoldsData)
    (hc : isContainer s c = true) (hnames : "__dict__" ∉ names) (hv : isUnset v = false) :
    Keeps s t ∧ (∀ l : Link, s.link? l.container l.name = some l.value → isUnset l.value = false →
        ¬ Overwrites links l → t.link? l.container l.name = some l.value) ∧
      ∀ l ∈ links, isUnset l.value = false ∧
        (¬ Overwrites links l → t.link? l.container l.name = some l.value) := by
  induction h with
  | last h =>
    have hsets := setMember_sets hs hc h
    refine ⟨hsets.toKeeps, fun l hl _ hkept => ?_, fun l hl => ?_⟩
    · rw [hsets.link]
      split_ifs with heq
      · by_contra hne
        exact hkept ⟨_, rfl, heq.1.symm, heq.2.symm, fun hvalue => hne (congrArg some hvalue)⟩
      · exact hl
    · obtain rfl := List.mem_singleton.1 hl
      exact ⟨hv, fun _ => by rw [hsets.link, if_pos ⟨rfl, rfl⟩]⟩
  | @enter c next name rest s u t links h hrest ih =>
    simp only [List.mem_cons, not_or] at hnames
    obtain ⟨hgrows, hlink, hnext, hopen⟩ := enter_ok hs hc (Ne.symm hnames.1) h
    obtain ⟨hkeeps, hkept, hown⟩ := ih hgrows.data hopen hnames.2
    have hne := hrest.links_ne_nil
    refine ⟨hgrows.toKeeps.trans hkeeps, fun l hl hvalue hover => ?_, fun l hl => ?_⟩
    · rw [overwrites_cons hne] at hover
      exact hkept l (hgrows.link hl hvalue) hvalue hover
    · rw [overwrites_cons hne]
      rcases List.mem_cons.1 hl with rfl | hl
      · exact ⟨hnext, hkept _ hlink hnext⟩
      · exact hown l hl

theorem child_of_link (h : s.link? c name = some w) : child c name s = .ok w s := by
  obtain ⟨id, o, rfl, ho, hplain⟩ := isPlain_of_link? h
  rw [link?_object, ho] at h
  rw [child, Act.bind_store, entries?, asObject?_of_object? ho]
  cases o with
  | map entries =>
    have hkey : s.isKey (.str name) = true := rfl
    simp only [Container.item, Act.bind_store, asObject?_of_object? ho, hkey, if_true]
    rw [show s.find? (.str name) entries = some w from h]
    rfl
  | record fields =>
    have hread : Field.read? id (.record fields) name = return some w := by
      rw [Field.read?, items?_record, entries?_record, Field.value?, show fields.lookup name = some w from h]
    have hfind : Attribute.find? (.object id) name s = .ok (some w) s := by
      rw [Attribute.find?, Act.bind_store, asObject?_of_object? ho]
      simp only [hread, pure_bind]
      rfl
    exact Act.bind_of_ok hfind
  | _ => cases hplain

/-- A path whose links are there leads to what was defined. -/
theorem Traces.follow (h : Traces path v c names s links t) {u : Store}
    (hlinks : ∀ l ∈ links, u.link? l.container l.name = some l.value) :
    names.foldlM child c u = .ok v u := by
  induction h with
  | last _ =>
    have hchild := child_of_link (hlinks _ List.mem_cons_self)
    rw [List.foldlM_cons, Act.bind_of_ok hchild]
    rfl
  | enter _ _ ih =>
    have hchild := child_of_link (hlinks _ List.mem_cons_self)
    rw [List.foldlM_cons, Act.bind_of_ok hchild]
    exact ih fun l hl => hlinks l (List.mem_cons_of_mem _ hl)

/-! ### All definitions of an environment -/

/-- A definition of a value at a path from a root. -/
structure Definition where
  root : Value
  path : String
  links : List Link

/-- A definition cuts another one if it ends in a link of its path. -/
def Definition.Cuts (e d : Definition) : Prop := ∃ l ∈ d.links, Overwrites e.links l

/-- Definitions of one value, made one after the other; other objects may be made in between. -/
inductive History (v : Value) : Store → List Definition → Store → Prop
  | done (s : Store) : History v s [] s
  | make {s t : Store} {ds : List Definition} {o : Object} (ho : o.isData = true)
      (h : History v (s.push o) ds t) : History v s ds t
  | define {s u t : Store} {root : Value} {path : String} {links : List Link}
      {ds : List Definition} (hpath : path ≠ "") (hroot : isContainer s root = true)
      (hlinks : Traces path v root (Text.splitAt '.' path) s links u)
      (h : History v (u.noted (.alias path)) ds t) : History v s (⟨root, path, links⟩ :: ds) t

theorem History.append {u : Store} {ds es : List Definition} (h : History v s ds t)
    (h' : History v t es u) : History v s (ds ++ es) u := by
  induction h with
  | done _ => exact h'
  | make ho _ ih => exact .make ho (ih h')
  | define hpath hroot hlinks _ ih => exact .define hpath hroot hlinks (ih h')

/-- **Run.** Definitions leave every link to something as it was, unless one of them ends there. -/
theorem History.keeps {ds : List Definition} (h : History v s ds t) (hs : s.HoldsData)
    (hv : isUnset v = false) (hnames : ∀ d ∈ ds, "__dict__" ∉ Text.splitAt '.' d.path) :
    Keeps s t ∧ ∀ l : Link, s.link? l.container l.name = some l.value → isUnset l.value = false →
        (∀ d ∈ ds, ¬ Overwrites d.links l) → t.link? l.container l.name = some l.value := by
  induction h with
  | done s => exact ⟨⟨hs, fun _ h => h, fun _ _ _ h => h⟩, fun _ h _ _ => h⟩
  | make ho _ ih =>
    have hgrows := grows_push hs ho
    obtain ⟨hkeeps, hkept⟩ := ih hgrows.data hnames
    exact ⟨hgrows.toKeeps.trans hkeeps, fun l hl hvalue hover =>
      hkept l (hgrows.link hl hvalue) hvalue hover⟩
  | @define s u t root path links ds _ hroot hlinks _ ih =>
    obtain ⟨hkeeps, hkept, -⟩ := hlinks.keeps hs hroot (hnames _ List.mem_cons_self) hv
    have hnoted := grows_noted hkeeps.data (.alias path)
    obtain ⟨hkeeps', hkept'⟩ := ih hnoted.data fun d hd => hnames d (List.mem_cons_of_mem _ hd)
    refine ⟨(hkeeps.trans hnoted.toKeeps).trans hkeeps', fun l hl hvalue hover => ?_⟩
    refine hkept' l (hnoted.link ?_ hvalue) hvalue fun d hd => hover d (List.mem_cons_of_mem _ hd)
    exact hkept l hl hvalue (hover _ List.mem_cons_self)

/-- A definition that neither itself nor a later one cuts can be followed to the end. -/
theorem History.follow {ds : List Definition} (h : History v s ds t) (hs : s.HoldsData)
    (hv : isUnset v = false) (hnames : ∀ d ∈ ds, "__dict__" ∉ Text.splitAt '.' d.path)
    {before after : List Definition} {d : Definition} (hds : ds = before ++ d :: after)
    (hcut : ∀ e ∈ d :: after, ¬ e.Cuts d) : follow d.root d.path t = .ok v t := by
  induction h generalizing before with
  | done s => simp at hds
  | make ho _ ih => exact ih (grows_push hs ho).data hnames hds
  | @define s u t root path links ds hpath hroot hlinks h ih =>
    obtain ⟨hkeeps, hkept, hown⟩ := hlinks.keeps hs hroot (hnames _ List.mem_cons_self) hv
    have hnoted := grows_noted hkeeps.data (.alias path)
    cases before with
    | cons e before =>
      exact ih hnoted.data (fun d hd => hnames d (List.mem_cons_of_mem _ hd)) (List.cons.inj hds).2
    | nil =>
      obtain ⟨rfl, rfl⟩ := List.cons.inj hds
      obtain ⟨-, hlater⟩ := h.keeps hnoted.data hv fun d hd => hnames d (List.mem_cons_of_mem _ hd)
      have hover : ∀ e ∈ (⟨root, path, links⟩ : Definition) :: ds, ∀ l ∈ links,
          ¬ Overwrites e.links l := fun e he l hl hover => hcut e he ⟨l, hl, hover⟩
      have hfinal : ∀ l ∈ links, t.link? l.container l.name = some l.value := by
        intro l hl
        obtain ⟨hvalue, hset⟩ := hown l hl
        refine hlater l (hnoted.link (hset (hover _ List.mem_cons_self l hl)) hvalue) hvalue ?_
        exact fun e he => hover e (List.mem_cons_of_mem _ he) l hl
      rw [Environment.follow, if_neg hpath]
      exact hlinks.follow hfinal

theorem splitAt_eq_cons (c : Char) (text : String) :
    ∃ name rest, Text.splitAt c text = name :: rest := by
  have hne : ∀ cs, Text.pieces c cs ≠ [] := by
    intro cs
    cases cs with
    | nil => simp [Text.pieces]
    | cons d rest =>
      rw [Text.pieces]
      split_ifs
      · simp
      · split <;> simp
  obtain ⟨piece, more, hpieces⟩ := List.exists_cons_of_ne_nil (hne text.toList)
  exact ⟨_, _, by rw [Text.splitAt, hpieces, List.map_cons]⟩

/-- The paths among some values that are not empty. -/
def pathNames (paths : List Value) : List String :=
  paths.filterMap fun path =>
    match path with
    | .str text => if text = "" then none else some text
    | _ => none

@[simp] theorem pathNames_append (ps qs : List Value) :
    pathNames (ps ++ qs) = pathNames ps ++ pathNames qs := List.filterMap_append

/-- A path that is no string, or empty, changes nothing. -/
theorem defineAt_cases {path : Value} (h : defineAt root v path s = .ok () t) :
    (pathNames [path] = [] ∧ t = s) ∨ ∃ text links u, path = .str text ∧ text ≠ "" ∧
        Traces text v root (Text.splitAt '.' text) s links u ∧ t = u.noted (.alias text) := by
  rw [defineAt, Act.bind_store] at h
  cases path with
  | str text =>
    by_cases htext : text = ""
    · subst htext
      cases h
      exact .inl ⟨rfl, rfl⟩
    · simp only [define, htext, if_false] at h
      obtain ⟨_, u, hdefine, hnote⟩ := Act.ok_of_bind h
      obtain ⟨name, rest, hsplit⟩ := splitAt_eq_cons '.' text
      rw [hsplit] at hdefine
      obtain ⟨links, hlinks⟩ := traces_of_defineFrom hdefine
      cases hnote
      exact .inr ⟨text, links, u, rfl, htext, hsplit ▸ hlinks, rfl⟩
  | _ =>
    simp only at h
    split_ifs at h
    · obtain ⟨fault, hfault⟩ := Act.noAttribute_eq (α := Unit) _ "split" s
      rw [hfault] at h
      cases h
    · cases h
      exact .inl ⟨rfl, rfl⟩

theorem history_of_defineAll {paths : List Value}
    (h : defineAll root v paths s = .ok () t) (hs : s.HoldsData)
    (hroot : isContainer s root = true) (hv : isUnset v = false)
    (hnames : ∀ text ∈ pathNames paths, "__dict__" ∉ Text.splitAt '.' text) :
    t.HoldsData ∧ ∃ ds, ds.map (fun d => (d.root, d.path)) = (pathNames paths).map (root, ·) ∧
      History v s ds t := by
  induction paths generalizing s with
  | nil =>
    cases h
    exact ⟨hs, [], rfl, .done _⟩
  | cons path rest ih =>
    obtain ⟨_, u, hpath, hrest⟩ := Act.ok_of_bind h
    rcases defineAt_cases hpath with ⟨hnone, hsame⟩ | ⟨text, links, w, rfl, htext, hlinks, rfl⟩
    · have hskip : pathNames (path :: rest) = pathNames rest := by
        rw [← List.singleton_append, pathNames_append, hnone, List.nil_append]
      rw [hskip] at hnames ⊢
      rw [hsame] at hrest
      exact ih hrest hs hroot hnames
    · have hcons : pathNames (.str text :: rest) = text :: pathNames rest := by
        simp [pathNames, htext]
      rw [hcons] at hnames ⊢
      obtain ⟨hkeeps, -⟩ := hlinks.keeps hs hroot (hnames _ List.mem_cons_self) hv
      have hnoted := hkeeps.trans (grows_noted hkeeps.data (.alias text)).toKeeps
      obtain ⟨ht, ds, hds, hhistory⟩ := ih hrest hnoted.data (hnoted.containers _ hroot) fun p hp =>
        hnames p (List.mem_cons_of_mem _ hp)
      exact ⟨ht, ⟨root, text, links⟩ :: ds, by rw [List.map_cons, List.map_cons, hds],
        .define htext hroot hlinks hhistory⟩

theorem path_mem {ds : List Definition}
    (h : ds.map (fun d => (d.root, d.path)) = names.map (root, ·)) {d : Definition} (hd : d ∈ ds) :
    d.path ∈ names := by
  have hmem : (d.root, d.path) ∈ names.map (root, ·) := h ▸ List.mem_map.2 ⟨d, hd, rfl⟩
  obtain ⟨p, hp, heq⟩ := List.mem_map.1 hmem
  exact (Prod.mk.inj heq).2 ▸ hp

end Alias

theorem Store.depth_pos (s : Store) : ∃ n, s.depth = n + 1 := by
  have hfold : ∀ (os : List Object) (n : Nat), n ≤ os.foldl (fun n o => n + o.depth) n := by
    intro os
    induction os with
    | nil => exact fun n => le_rfl
    | cons o rest ih => exact fun n => (Nat.le_add_right n o.depth).trans (ih _)
  have hdepth : 4 ≤ s.depth := by
    rw [depth, ← Array.foldl_toList]
    exact hfold s.objects.toList 4
  exact ⟨s.depth - 1, by omega⟩

/-- The loader gives its answer, whatever it is asked for. -/
theorem call_loader {answer : Value} {added : Fields}
    (h : s.object? id = some (.function (.loader answer) added)) (args : List Value) :
    call (.object id) args s = .ok answer s := by
  obtain ⟨n, hn⟩ := s.depth_pos
  rw [call, Act.bind_store, machine, hn, Nat.mul_zero, Nat.add_zero]
  show Machine.callWith (Machine.ofDepth n) (.object id) args s = _
  unfold Machine.callWith
  rw [Act.bind_store]
  simp only [h]
  rfl

theorem new_ok (h : Act.new o s = .ok v t) : v = .object s.next ∧ t = s.push o := by
  cases h
  exact ⟨rfl, rfl⟩

/-- The definitions that are made while an environment is built: those of the loader's answer, then
those of the globals. -/
theorem history_of_build {context : Entries} {requirePaths globalPaths : List Value}
    {globals : Value} (hs : s.HoldsData)
    (hnames : ∀ text ∈ pathNames (requirePaths ++ globalPaths), "__dict__" ∉ Text.splitAt '.' text)
    (h : build context requirePaths globalPaths s = .ok globals t) :
    ∃ surface answer loader u ds,
      (surfaceFields >>= fun fields => Act.new (.record fields)) s = .ok surface u ∧
      u.HoldsData ∧ isUnset surface = false ∧
      t.object? loader = some (.function (.loader answer) []) ∧
      ds.map (fun d => (d.root, d.path)) =
        (pathNames requirePaths).map (answer, ·) ++ (pathNames globalPaths).map (globals, ·) ∧
      History surface u ds t := by
  rw [build] at h
  obtain ⟨fields, s₁, hfields, h⟩ := Act.ok_of_bind h
  obtain ⟨surface, s₂, hsurface, h⟩ := Act.ok_of_bind h
  obtain ⟨answer, s₃, hanswer, h⟩ := Act.ok_of_bind h
  obtain ⟨_, s₄, hrequire, h⟩ := Act.ok_of_bind h
  obtain ⟨loader, s₅, hloader, h⟩ := Act.ok_of_bind h
  obtain ⟨exports, s₆, hexports, h⟩ := Act.ok_of_bind h
  rw [Act.bind_store] at h
  obtain ⟨root, s₇, hroot, h⟩ := Act.ok_of_bind h
  obtain ⟨_, s₈, hglobal, hresult⟩ := Act.ok_of_bind h
  have hmade : (surfaceFields >>= fun fields => Act.new (.record fields)) s =
      .ok surface s₂ := by rw [Act.bind_of_ok hfields, hsurface]
  obtain ⟨rfl, rfl⟩ := new_ok hsurface
  obtain ⟨rfl, rfl⟩ := new_ok hanswer
  obtain ⟨rfl, rfl⟩ := new_ok hloader
  obtain ⟨rfl, rfl⟩ := new_ok hexports
  obtain ⟨rfl, rfl⟩ := new_ok hroot
  cases hresult
  rw [pathNames_append] at hnames
  have hrequireNames : ∀ text ∈ pathNames requirePaths, "__dict__" ∉ Text.splitAt '.' text :=
    fun p hp => hnames p (List.mem_append_left _ hp)
  have hglobalNames : ∀ text ∈ pathNames globalPaths, "__dict__" ∉ Text.splitAt '.' text :=
    fun p hp => hnames p (List.mem_append_right _ hp)
  have hpush : ∀ {s : Store} {o : Object}, s.HoldsData → o.isData = true → (s.push o).HoldsData :=
    fun hs ho => (grows_push hs ho).data
  have hopen : ∀ (s : Store) (o : Object), (∃ es, o = .map es) ∨ (∃ fs, o = .record fs) →
      isContainer (s.push o) (.object s.next) = true := by
    intro s o ho
    rw [isContainer_object, object?_push_next]
    rcases ho with ⟨es, rfl⟩ | ⟨fs, rfl⟩ <;> rfl
  have hfieldsData : s₁.HoldsData := by
    cases hfields
    exact hpush (hpush (hpush hs rfl) rfl) rfl
  obtain ⟨hdata, ds, hds, hhistory⟩ := history_of_defineAll hrequire
    (hpush (hpush hfieldsData rfl) rfl) (hopen _ _ (.inr ⟨_, rfl⟩)) rfl hrequireNames
  obtain ⟨-, es, hes, hhistory'⟩ := history_of_defineAll hglobal
    (hpush (hpush (hpush hdata rfl) rfl) rfl) (hopen _ _ (.inl ⟨_, rfl⟩)) rfl hglobalNames
  -- the loader is made after the first definitions, and the others leave it alone
  have hlater := History.make (o := .function (.loader _) []) rfl
    (.make (o := .record []) rfl (.make (o := .map _) rfl hhistory'))
  have hesNames : ∀ d ∈ es, "__dict__" ∉ Text.splitAt '.' d.path := fun d hd =>
    hglobalNames d.path (path_mem hes hd)
  obtain ⟨hkeeps, -⟩ := (History.make (o := .record []) rfl
    (.make (o := .map _) rfl hhistory')).keeps (hpush hdata rfl) rfl hesNames
  refine ⟨_, _, s₄.next, _, ds ++ es, hmade, hpush hfieldsData rfl, rfl,
    hkeeps.functions _ _ _ (object?_push_next s₄ _), ?_, .make rfl (hhistory.append hlater)⟩
  rw [List.map_append, hds, hes]

/-- **Aliases lead to the registration surface.** While an environment is built, the paths of the
loader's answer and then those of the globals are defined one after the other. At the end every path
that neither itself nor a later one cuts leads to the registration surface. -/
theorem aliases_lead_to_surface {context : Entries} {requirePaths globalPaths : List Value}
    {s t : Store} {globals : Value} (hs : s.HoldsData)
    (hnames : ∀ text ∈ Alias.pathNames (requirePaths ++ globalPaths),
      "__dict__" ∉ Text.splitAt '.' text)
    (h : Environment.build context requirePaths globalPaths s = .ok globals t) :
    ∃ surface answer loader u ds,
      (Environment.surfaceFields >>= fun fields => Act.new (.record fields)) s = .ok surface u ∧
      (∀ args, Environment.call (.object loader) args t = .ok answer t) ∧
      ds.map (fun d => (d.root, d.path)) =
        (Alias.pathNames requirePaths).map (answer, ·) ++
          (Alias.pathNames globalPaths).map (globals, ·) ∧
      Alias.History surface u ds t ∧
      ∀ before d after, ds = before ++ d :: after → (∀ e ∈ d :: after, ¬ e.Cuts d) →
        Environment.follow d.root d.path t = .ok surface t := by
  obtain ⟨surface, answer, loader, u, ds, hmade, hu, hunset, hloader, hds, hhistory⟩ :=
    history_of_build hs hnames h
  have hpaths : ds.map (·.path) = pathNames (requirePaths ++ globalPaths) := by
    have hsnd := congrArg (List.map Prod.snd) hds
    rw [List.map_append, List.map_map, List.map_map, List.map_map] at hsnd
    simpa [Function.comp_def] using hsnd
  have hdict : ∀ d ∈ ds, "__dict__" ∉ Text.splitAt '.' d.path := fun d hd =>
    hnames d.path (hpaths ▸ List.mem_map_of_mem (f := (·.path)) hd)
  exact ⟨surface, answer, loader, u, ds, hmade, call_loader hloader, hds, hhistory,
    fun before d after heq hcut => hhistory.follow hu hunset hdict heq hcut⟩

def Act.succeeds {α : Type} (x : Act α) (s : Store) : Bool :=
  match x s with
  | .ok _ _ => true
  | .error _ _ => false

theorem Act.exists_ok {α : Type} {x : Act α} (h : x.succeeds s = true) : ∃ a t, x s = .ok a t := by
  unfold Act.succeeds at h
  cases hx : x s with
  | ok a t => exact ⟨a, t, rfl⟩
  | error fault t => rw [hx] at h; cases h

theorem Act.exists_error {α : Type} {x : Act α} (h : x.succeeds s = false) :
    ∃ fault t, x s = .error fault t := by
  unfold Act.succeeds at h
  cases hx : x s with
  | ok a t => rw [hx] at h; cases h
  | error fault t => exact ⟨fault, t, rfl⟩

/-- Whether an action succeeds with an answer and a store that pass a test. -/
def Act.passes {α : Type} (x : Act α) (s : Store) (test : α → Store → Bool) : Bool :=
  match x s with
  | .ok a t => test a t
  | .error _ _ => false

theorem Act.exists_ok_of_passes {α : Type} {x : Act α} {test : α → Store → Bool}
    (h : x.passes s test = true) : ∃ a t, x s = .ok a t ∧ test a t = true := by
  unfold Act.passes at h
  cases hx : x s with
  | ok a t => rw [hx] at h; exact ⟨a, t, rfl, h⟩
  | error fault t => rw [hx] at h; cases h

def aliasStore : Store := { objects := #[.map []] }

/-- Paths through a mapping of the context and through one another. -/
theorem aliases_lead_to_surface_sample :
    ∃ globals t surface answer loader u ds,
      Environment.build [(.str "App", .object ⟨0⟩)] [.str "default", .str "a.b"]
        [.str "App.Ember", .str "", .str "App.Ember.x", .str "E"] aliasStore = .ok globals t ∧
      (Environment.surfaceFields >>= fun fields => Act.new (.record fields)) aliasStore =
        .ok surface u ∧
      (∀ args, Environment.call (.object loader) args t = .ok answer t) ∧
      ds.map (fun d => (d.root, d.path)) =
        [(answer, "default"), (answer, "a.b"), (globals, "App.Ember"), (globals, "App.Ember.x"),
          (globals, "E")] ∧
      Alias.History surface u ds t ∧
      ∀ before d after, ds = before ++ d :: after → (∀ e ∈ d :: after, ¬ e.Cuts d) →
        Environment.follow d.root d.path t = .ok surface t := by
  have hs : aliasStore.HoldsData := by
    intro id o h
    rw [object?, aliasStore, ← Array.getElem?_toList, List.getElem?_cons] at h
    split_ifs at h
    · cases h
      rfl
    · cases h
  obtain ⟨globals, t, h⟩ := Act.exists_ok (s := aliasStore)
    (x := build [(.str "App", .object ⟨0⟩)] [.str "default", .str "a.b"]
      [.str "App.Ember", .str "", .str "App.Ember.x", .str "E"]) (by decide +kernel)
  obtain ⟨surface, answer, loader, u, ds, hall⟩ := aliases_lead_to_surface hs (by decide +kernel) h
  exact ⟨globals, t, surface, answer, loader, u, ds, h, hall⟩

/-- A later path can replace a container that an earlier one runs through. -/
theorem alias_cut_by_shorter_path :
    ((Environment.build [] [] [.str "a.b", .str "a"] >>= fun globals =>
        Environment.follow globals "a").succeeds {} = true) ∧
      (Environment.build [] [] [.str "a.b", .str "a"] >>= fun globals =>
        Environment.follow globals "a.b").succeeds {} = false :=
  ⟨by decide +kernel, by decide +kernel⟩

end TemplateRecovery
