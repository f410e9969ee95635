import TemplateRecovery.Proofs.Arguments
import TemplateRecovery.Proofs.Atomic
import TemplateRecovery.Proofs.Refusal

/-!
# The faults of declarative templates

A declarative template that is recovered fails by its members, by its shape, by an unknown tag, or by
the number of its slots, and by nothing else, as long as its builders return, its statements are plain
data, and no number is too long to be written. What is wrong with its members is found before a builder
is called.

* `Store.PlainData` says that neither a node nor a morph is found in the arrays of a value.
* `Opcode.Reaches` says at which templates and in which stores a recovery arrives.
* `Opcode.firstViolated` is the first member of a template that is missing or malformed.
* `opcode_faults_closed` names all faults and says when they come.
-/

namespace TemplateRecovery

open Act Opcode Fault Statement Machine Binding Document Artifact

variable {s t u : Store} {fault : Fault} {v templates slot statement template : Value}
  {items : List Value} {r : Raw} {nested : Value → Act Value} {m : Machine} {d : Nat}
  {name : String}

/-! ### Actions and their faults -/

namespace Act

variable {α β : Type} {P : Fault → Store → Prop}

/-- If an action fails, something holds of the fault and of the store that it leaves. -/
def FailsBy (P : Fault → Store → Prop) (x : Act α) (s : Store) : Prop :=
  ∀ fault t, x s = .error fault t → P fault t

theorem failsBy_of_ok {x : Act α} {a : α} (h : x s = .ok a t) : x.FailsBy P s := by
  intro fault u herror
  rw [h] at herror
  cases herror

theorem FailsBy.bind {x : Act α} {f : α → Act β} (hx : x.FailsBy P s)
    (hf : ∀ a t, x s = .ok a t → (f a).FailsBy P t) : (x >>= f).FailsBy P s := by
  intro fault u h
  cases hxs : x s with
  | ok a t =>
    rw [bind_of_ok hxs] at h
    exact hf a t hxs fault u h
  | error fault' t =>
    rw [bind_of_error hxs] at h
    cases h
    exact hx _ _ hxs

theorem Yields.of_ok {x : Act α} {post : α → Store → Prop} {failed : Store → Prop} {a : α}
    (h : x.Yields s post failed) (hok : x s = .ok a t) : post a t := by
  rwa [Yields, hok] at h

theorem failsBy_pure (a : α) (s : Store) : (pure a : Act α).FailsBy P s := failsBy_of_ok rfl

theorem failsBy_fail (h : P fault s) : (fail fault : Act α).FailsBy P s := by
  rintro _ _ herror
  cases herror
  exact h

theorem failsBy_lift {x : Except Fault α} (h : ∀ fault, x = .error fault → P fault s) :
    (lift x).FailsBy P s := by
  cases x with
  | ok a => exact failsBy_pure a s
  | error fault => exact failsBy_fail (h fault rfl)

theorem FailsBy.mono {Q : Fault → Store → Prop} {x : Act α} (h : x.FailsBy P s)
    (hPQ : ∀ fault t, P fault t → Q fault t) : x.FailsBy Q s :=
  fun fault t herror => hPQ fault t (h fault t herror)

theorem FailsBy.of_store {f : Store → Act β} (h : (f s).FailsBy P s) :
    (store >>= f).FailsBy P s := h

theorem Total.failsBy {x : Act α} (h : x.Total) (s : Store) : x.FailsBy P s := by
  obtain ⟨a, t, hok⟩ := h s
  exact failsBy_of_ok hok

theorem Steps.extends_of_ok {Q : Object → Prop} {x : Act α} (h : x.MakesOnly Q) {a : α}
    (hok : x s = .ok a t) : s.Extends t := by
  have hs := (h s).extend
  rwa [after_of_ok hok] at hs

end Act

/-- The faults of what is written in a template: a shape or an unknown tag. -/
def Fault.IsSyntax : Fault → Prop
  | .shape _ => True
  | .unknownTag _ _ _ => True
  | _ => False

/-- The faults of a declarative template: its members, what is written in it, or the number of its
slots. -/
def Fault.IsDeclarative : Fault → Prop
  | .artifact _ => True
  | .shape _ => True
  | .unknownTag _ _ _ => True
  | .mismatch _ _ => True
  | _ => False

theorem Fault.IsSyntax.isDeclarative (h : fault.IsSyntax) : fault.IsDeclarative := by
  cases fault <;> first | exact h | exact trivial

/-- The faults of reading what is written in a template: those of the syntax, and a number that is too
long to be written in them. -/
def Fault.IsReading (fault : Fault) : Prop := fault.IsSyntax ∨ fault = .longNumber

theorem Fault.isReading_ofShape (cause : ShapeFault) : (ofShape cause).IsReading := by
  unfold ofShape showing
  split
  · exact .inl trivial
  · exact .inr rfl

/-- If an action fails, it fails by what is written in a template. -/
abbrev Act.FailsInReading {α : Type} (x : Act α) (s : Store) : Prop :=
  x.FailsBy (fun fault _ => fault.IsReading) s

theorem Act.failShape_failsInReading {α : Type} (cause : View → ShapeFault) (v : Value) (s : Store) :
    (failShape cause v : Act α).FailsInReading s :=
  failsBy_fail (isReading_ofShape (cause (s.view v)))

theorem FailsOnly.lift {α : Type} {x : Except Fault α} (h : FailsOnly IsReading x) (s : Store) :
    (lift x).FailsInReading s := failsBy_lift h

theorem written_longNumber (v : View) : FailsOnly (· = .longNumber) (written v) := by
  unfold written
  split
  · exact failsOnly_ok _
  · exact failsOnly_error rfl

/-! ### Plain data -/

namespace Store

variable {s t : Store}

/-- A value is found in the arrays of another one. -/
inductive Inside (s : Store) : Value → Value → Prop
  | here (v : Value) : Inside s v v
  | item {v w x : Value} {items : List Value} (hitems : s.array? v = some items) (hw : w ∈ items)
      (hx : Inside s w x) : Inside s v x

/-- Everything that is found in the arrays of a value is there and is neither a node nor a morph. -/
def PlainData (s : Store) (v : Value) : Prop :=
  ∀ w, s.Inside v w → s.Valid w ∧ s.isPrinted w = false

theorem PlainData.item {w : Value} (h : s.PlainData v) (hitems : s.array? v = some items)
    (hw : w ∈ items) : s.PlainData w :=
  fun x hx => h x (.item hitems hw hx)

theorem asObject?_of_objects_eq (h : t.objects = s.objects) (v : Value) :
    t.asObject? v = s.asObject? v := by
  cases v with
  | object id => rw [asObject?, asObject?, object?_of_objects_eq h]
  | _ => rfl

theorem array?_of_extends (hst : s.Extends t) (hv : s.Valid v) : t.array? v = s.array? v := by
  rw [array?, array?, asObject?_of_extends hst hv]

theorem PlainData.mono (hst : s.Extends t) (h : s.PlainData v) : t.PlainData v := by
  intro w hw
  induction hw with
  | here v =>
    obtain ⟨hv, hprinted⟩ := h v (.here v)
    refine ⟨hv.mono hst, ?_⟩
    rw [isPrinted, asObject?_of_extends hst hv]
    exact hprinted
  | item hitems hmem _ ih =>
    rw [array?_of_extends hst (h _ (.here _)).1] at hitems
    exact ih (h.item hitems hmem)

theorem plainData_scalar (hv : ∀ id, v ≠ .object id) : s.PlainData v := by
  have hobject : s.asObject? v = none := by
    cases v with
    | object id => exact absurd rfl (hv id)
    | _ => rfl
  intro w hw
  cases hw with
  | here => exact ⟨fun id hid => absurd hid (hv id), by rw [isPrinted, hobject]⟩
  | item hitems => rw [array?, hobject] at hitems; cases hitems

theorem plainData_array (hv : s.array? v = some items) (h : ∀ w ∈ items, s.PlainData w) :
    s.PlainData v := by
  intro w hw
  cases hw with
  | here =>
    obtain ⟨id, rfl, ho | ho⟩ := array?_eq_some hv
    all_goals
      refine ⟨fun x hx => ?_, by rw [isPrinted, asObject?_of_object? ho]⟩
      cases hx
      exact ⟨_, ho⟩
  | item hitems hmem hw =>
    rw [hv] at hitems
    cases hitems
    exact h _ hmem w hw

/-- A value that is neither a node nor a morph has a text, or it is written out. -/
theorem text_of_not_printed (hv : s.Valid v) (hprinted : s.isPrinted v = false) :
    (∃ text, s.text v = .ok text) ∨ s.text v = written (s.view v) := by
  rw [text, hprinted]
  simp only [Bool.false_eq_true, if_false]
  cases v with
  | object id =>
    obtain ⟨o, ho⟩ := hv id rfl
    have hview : s.view (.object id) =
        s.viewObject (s.viewWithin s.objects.size [(id, 0)]) 1 o := by
      rw [view, viewFuel, viewWithin, ho]
      rfl
    rw [isPrinted, asObject?_of_object? ho] at hprinted
    rw [hview]
    cases o with
    | expression e => cases e <;> exact .inr rfl
    | morph m added => cases hprinted
    | node n added => cases hprinted
    | _ => exact .inr rfl
  | int n =>
    right
    rw [show s.view (.int n) = .int n from rfl]
    simp only [View.plain, plainOf, View.label?]
  | _ => first | exact .inl ⟨_, rfl⟩ | exact .inr rfl

end Store

namespace Raw

theorem inside_of_atom {fuel : Nat} {w : Value} (h : (ofValueWithin s fuel v).Atom w) :
    s.Inside v w := by
  induction fuel generalizing v with
  | zero =>
    cases h
    exact .here _
  | succ fuel ih =>
    unfold ofValueWithin at h
    split at h
    · next id items hobject =>
      obtain ⟨r, hr, hw⟩ : ∃ r ∈ items.map (ofValueWithin s fuel), r.Atom w := by
        cases h with
        | list hr hw => exact ⟨_, hr, hw⟩
      obtain ⟨x, hx, rfl⟩ := List.mem_map.1 hr
      exact .item (by rw [Store.array?, hobject]) hx (ih hw)
    · next id items hobject =>
      obtain ⟨r, hr, hw⟩ : ∃ r ∈ items.map (ofValueWithin s fuel), r.Atom w := by
        cases h with
        | tuple hr hw => exact ⟨_, hr, hw⟩
      obtain ⟨x, hx, rfl⟩ := List.mem_map.1 hr
      exact .item (by rw [Store.array?, hobject]) hx (ih hw)
    · cases h
      exact .here _

end Raw

/-! ### Reading expressions -/

namespace Display

/-- All values in an argument have texts, but for numbers that are too long. -/
abbrev Reads (d : Display) (r : Raw) : Prop := r.All fun v => FailsOnly (· = .longNumber) (d.text v)

theorem Reads.rawText {d : Display} (h : d.Reads r) : FailsOnly (· = .longNumber) (d.rawText r) := by
  cases r with
  | atom v => exact h v (.atom v)
  | list items => exact written_longNumber _
  | tuple items => exact written_longNumber _

theorem agreeOn_reading (d : Display) :
    d.AgreeOn (fun e _ => e.IsReading) (fun v => FailsOnly (· = .longNumber) (d.text v)) d where
  view _ _ := rfl
  text v hv := by
    cases htext : d.text v with
    | ok text => exact .ok trivial
    | error e => exact .error (.inr (hv e htext))
  shape _ := .inl trivial
  tag _ _ _ := .inl trivial
  long _ _ _ := .inr rfl

end Display

theorem Store.PlainData.reads (h : s.PlainData v) : s.display.Reads (Raw.ofValue s v) := by
  intro w hw
  obtain ⟨hvalid, hprinted⟩ := h w (Raw.inside_of_atom hw)
  rcases s.text_of_not_printed hvalid hprinted with ⟨text, htext⟩ | hwritten
  · exact fun fault h => by cases htext.symm.trans h
  · exact fun fault h => written_longNumber _ fault (hwritten.symm.trans h)

namespace Opcode

theorem failsByReading_shape {α : Type} (cause : ShapeFault) :
    FailsOnly IsReading (.error (.shape cause) : Except Fault α) :=
  failsOnly_error (.inl trivial)

theorem failsByReading_ofShape {α : Type} (cause : ShapeFault) :
    FailsOnly IsReading (.error (.ofShape cause) : Except Fault α) :=
  failsOnly_error (isReading_ofShape cause)

variable {d : Display}

theorem unknownTag_failsByReading {α : Type} (kind : TagKind) {tag : Raw} (h : d.Reads tag) :
    FailsOnly IsReading (unknownTag d kind tag : Except Fault α) :=
  fun _ => (unknownTag_alike (Q := fun _ => True) d.agreeOn_reading kind h).of_error

theorem unknownTag_ne_ok {α : Type} (kind : TagKind) (tag : Raw) (a : α) :
    unknownTag d kind tag ≠ .ok a := by
  rw [unknownTag]
  cases d.rawText tag <;> rintro ⟨⟩

theorem helperName_failsByReading (tag : String) (r : Raw) : FailsOnly IsReading (helperName d tag r) := by
  unfold helperName
  split
  · exact failsOnly_ok _
  · exact failsByReading_ofShape _

theorem param_failsByReading (h : d.Reads r) : FailsOnly IsReading (param d r) :=
  fun _ => (readAlike d.agreeOn_reading (kind_true _) h).param.of_error

theorem params_failsByReading (h : d.Reads r) : FailsOnly IsReading (params d r) :=
  fun _ => (readAlike d.agreeOn_reading (kind_true _) h).params.of_error

theorem hash_failsByReading (h : d.Reads r) : FailsOnly IsReading (hash d r) :=
  fun _ => (readAlike d.agreeOn_reading (kind_true _) h).hash.of_error

mutual

theorem allocate_total : ∀ e, (allocate e).Total
  | .literal _ => fun _ => ⟨_, _, rfl⟩
  | .path _ => fun _ => ⟨_, _, rfl⟩
  | .concat parts => (allocateAll_total parts).bind fun _ _ => ⟨_, _, rfl⟩
  | .subexpr _ ps h => (allocateAll_total ps).bind fun _ => (allocateHash_total h).bind
      fun _ _ => ⟨_, _, rfl⟩

theorem allocateAll_total : ∀ es, (allocateAll es).Total
  | [] => total_pure _
  | e :: rest => (allocate_total e).bind fun _ => (allocateAll_total rest).bind
      fun _ => total_pure _

theorem allocateHash_total : ∀ h, (allocateHash h).Total
  | [] => total_pure _
  | (_, e) :: rest => (allocate_total e).bind fun _ => (allocateHash_total rest).bind
      fun _ => total_pure _

end

end Opcode

namespace Container

variable {s : Store} {v : Value} {items : List Value}

theorem length_of_array? (h : s.array? v = some items) : length v s = .ok items.length s := by
  obtain ⟨id, rfl, ho | ho⟩ := Store.array?_eq_some h
  all_goals
    rw [length, bind_store, Store.asObject?_of_object? ho]
    rfl

theorem items_of_array? (h : s.array? v = some items) : Container.items v s = .ok items s := by
  obtain ⟨id, rfl, ho | ho⟩ := Store.array?_eq_some h
  all_goals
    rw [Container.items, bind_store, Store.asObject?_of_object? ho]
    rfl

theorem position_of_lt {length p : Nat} (missing : Fault) (hlimit : length ≤ indexLimit)
    (hp : p < length) (s : Store) : position length missing (.int p) s = .ok p s := by
  have hrange : ¬((p : Int) < -indexLimit ∨ indexLimit ≤ p) := by
    unfold indexLimit at hlimit ⊢
    omega
  have hposition : position? length p = some p := by
    have hj : (if (p : Int) < 0 then (p : Int) + length else p) = p := if_neg (by omega)
    simp only [position?, hj, Int.toNat_natCast]
    rw [if_pos ⟨by omega, by omega⟩]
  rw [position]
  simp only [Value.index?, if_neg hrange, hposition]
  rfl

theorem item_of_array? (h : s.array? v = some items) (hlimit : items.length ≤ indexLimit) {p : Nat}
    (hp : p < items.length) : item v (.int p) s = .ok (items[p]?.getD .null) s := by
  obtain ⟨id, rfl, ho | ho⟩ := Store.array?_eq_some h
  all_goals
    rw [item, bind_store, Store.asObject?_of_object? ho]
    exact bind_of_ok (position_of_lt _ hlimit hp s)

end Container

namespace Opcode

open Act Fault

/-! ### Statements -/

variable {s : Store} {P : Fault → Store → Prop}

theorem paramOf_failsInReading (h : s.PlainData v) : (paramOf v).FailsInReading s :=
  FailsBy.of_store (((param_failsByReading h.reads).lift s).bind
    fun _ _ _ => (allocate_total _).failsBy _)

theorem paramsOf_failsInReading (h : s.PlainData v) : (paramsOf v).FailsInReading s :=
  FailsBy.of_store (((params_failsByReading h.reads).lift s).bind
    fun _ _ _ => (allocateAll_total _).failsBy _)

theorem hashOf_failsInReading (h : s.PlainData v) : (hashOf v).FailsInReading s :=
  FailsBy.of_store (((hash_failsByReading h.reads).lift s).bind
    fun _ _ _ => (allocateHash_total _).failsBy _)

theorem helperCall_failsInReading (tag : String) (name : Value) {ps h : Value} (hps : s.PlainData ps)
    (hh : s.PlainData h) : (helperCall tag name ps h).FailsInReading s := by
  refine FailsBy.of_store (((helperName_failsByReading tag _).lift s).bind
    fun name t hname => ?_)
  have hst : s.Extends t := Steps.extends_of_ok (Q := Object.IsExpression) (steps_lift _) hname
  refine (paramsOf_failsInReading (hps.mono hst)).bind fun ps' u hps' => ?_
  have hparams : (paramsOf ps).MakesOnly Object.IsExpression :=
    steps_store.bind fun _ => (steps_lift _).bind allocateAll_makesOnly
  have hsu := hst.trans (hparams.extends_of_ok hps')
  exact (hashOf_failsInReading (hh.mono hsu)).bind fun _ _ _ => failsBy_pure _ _

theorem expectSlot_failsInReading (tag : StatementTag) (v : Value) (s : Store) :
    (expectSlot tag v).FailsInReading s := by
  refine FailsBy.of_store ?_
  cases s.asPlaceholder? v with
  | none => exact failShape_failsInReading _ _ s
  | some id => exact failsBy_pure _ _

theorem templatePosition?_lt {length p : Nat} {index : Value}
    (h : templatePosition? length index = some p) : p < length := by
  unfold templatePosition? at h
  split at h
  · split_ifs at h
    cases h
    omega
  · cases h

theorem childTemplate_failsInReading (hitems : s.array? templates = some items)
    (hlimit : items.length ≤ Container.indexLimit) (index : Value) :
    (childTemplate templates index).FailsInReading s := by
  have hlength := Container.length_of_array? hitems
  refine (failsBy_of_ok hlength).bind fun count t hcount => ?_
  rw [hlength] at hcount
  cases hcount
  cases hposition : templatePosition? items.length index with
  | none => exact failShape_failsInReading _ _ s
  | some p =>
    exact failsBy_of_ok (Container.item_of_array? hitems hlimit (templatePosition?_lt hposition))

end Opcode

/-- The contents of a container are a list. -/
def Held.IsList (s : Store) : Held (List Value) → Prop
  | .own _ => True
  | .shared v => ∃ id items, v = .object id ∧ s.object? id = some (.list items)

theorem Held.IsList.mono (hst : s.Extends t) {h : Held (List Value)} (hs : h.IsList s) :
    h.IsList t := by
  cases h with
  | own items => trivial
  | shared v =>
    obtain ⟨id, items, hv, ho⟩ := hs
    exact ⟨id, items, hv, hst id _ ho⟩

theorem Held.IsList.expectList {h : Held (List Value)} (hs : h.IsList s) : h.expectList s = .ok () s := by
  cases h with
  | own items => rfl
  | shared v =>
    obtain ⟨id, items, rfl, ho⟩ := hs
    rw [Held.expectList, Container.expectList, bind_store, Store.asObject?_of_object? ho]
    rfl

theorem Binding.addModifier_total_of_isList {e : Element} (h : e.modifiers.IsList s)
    (c : HelperCall) : ∃ t, addModifier e c s = .ok () t := by
  cases hmodifiers : e.modifiers with
  | own items => exact ⟨_, addModifier_ok hmodifiers c s⟩
  | shared v =>
    rw [hmodifiers] at h
    obtain ⟨id, items, rfl, ho⟩ := h
    have hlist := s.object?_push_of_some (p := .morph (.element c) []) ho
    refine ⟨(s.push (.morph (.element c) [])).update id (Container.withItems [.object s.next]),
      (bind_of_ok (new_apply _ s)).trans ?_⟩
    rw [hmodifiers, Held.append, Container.append, bind_store, Store.asObject?_of_object? hlist]
    rfl

namespace Opcode

open Act Fault

variable {s : Store} {P : Fault → Store → Prop}

def Statement.arguments : Statement → List Value
  | .inline name ps h => [name, ps, h]
  | .attribute value => [value]
  | .element name ps h => [name, ps, h]
  | .content v => [v]
  | .block name ps h template inverse => [name, ps, h, template, inverse]

/-- A statement can be carried out in a store: it holds plain data, the templates are an array
whenever a block looks one up, and the element that an element statement is about has a list of
modifiers. -/
structure Legible (nested : Value → Act Value) (slot statement templates : Value) (s : Store) :
    Prop where
  plain : s.PlainData statement
  templates : ∀ st index u, statementOf s statement = .ok st →
    st.LooksUp nested slot templates (noted s statement) index u →
    ∃ items, u.array? templates = some items ∧ items.length ≤ Container.indexLimit
  modifiers : ∀ name ps h element e, statementOf s statement = .ok (.element name ps h) →
    Attribute.plain? s slot "parent" = some element → element? s element = some e →
    e.modifiers.IsList s

theorem branch_failsBy (hP : ∀ fault t, fault.IsReading → P fault t)
    (hitems : s.array? templates = some items) (hlimit : items.length ≤ Container.indexLimit)
    {index : Value} (hnested : ∀ branch t, childTemplate templates index s = .ok branch t →
      (nested branch).FailsBy P t) : (branch nested templates index).FailsBy P s :=
  ((childTemplate_failsInReading hitems hlimit index).mono hP).bind hnested

/-- **A statement** that can be carried out fails by what is written in it, or as a template that it
has recovered does. -/
theorem Statement.apply_failsBy {st : Statement} (hP : ∀ fault t, fault.IsReading → P fault t)
    (hplain : ∀ v ∈ st.arguments, s.PlainData v)
    (htemplates : ∀ index u, st.LooksUp nested slot templates s index u →
      ∃ items, u.array? templates = some items ∧ items.length ≤ Container.indexLimit)
    (hmodifiers : ∀ name ps h element e, st = .element name ps h →
      Attribute.plain? s slot "parent" = some element → element? s element = some e →
      e.modifiers.IsList s)
    (hnested : ∀ branch u, st.Asks nested slot templates s branch u → (nested branch).FailsBy P u) :
    (st.apply nested slot templates).FailsBy P s := by
  have hhelper : ∀ tag name ps h, s.PlainData ps → s.PlainData h →
      (helperCall tag name ps h).FailsBy P s :=
    fun tag name ps h hps hh => (helperCall_failsInReading tag name hps hh).mono hP
  cases st with
  | inline name ps h =>
    refine (hhelper _ _ _ _ (hplain ps (by simp [arguments])) (hplain h (by simp [arguments]))).bind
      fun c t _ => ?_
    exact ((expectSlot_failsInReading _ _ t).mono hP).bind fun id u _ => failsBy_of_ok (bind_apply _ _ _)
  | «attribute» value =>
    refine FailsBy.of_store ?_
    cases s.asAttribute? slot with
    | none => exact (failShape_failsInReading _ _ s).mono hP
    | some id =>
      exact ((paramOf_failsInReading (hplain value (by simp [arguments]))).mono hP).bind
        fun e t _ => failsBy_of_ok (setValue_apply _ _ _)
  | element name ps h =>
    have howner := expectOwner_apply slot s
    cases helement : (Attribute.plain? s slot "parent").bind (element? s) with
    | none =>
      rw [helement] at howner
      intro fault t herror
      rw [apply, bind_of_error howner] at herror
      cases herror
      exact hP _ _ (.inl trivial)
    | some e =>
      rw [helement] at howner
      obtain ⟨element, hparent, he⟩ := Option.bind_eq_some_iff.1 helement
      have hlist := hmodifiers name ps h element e rfl hparent he
      have howner := howner.trans (bind_of_ok hlist.expectList)
      refine (failsBy_of_ok howner).bind fun e' t hok => ?_
      rw [howner] at hok
      cases hok
      refine (hhelper _ _ _ _ (hplain ps (by simp [arguments]))
        (hplain h (by simp [arguments]))).bind fun c t hc => ?_
      have hst := (helperCall_makesOnly "element" name ps h).extends_of_ok hc
      obtain ⟨u, hu⟩ := addModifier_total_of_isList (hlist.mono hst) c
      exact failsBy_of_ok hu
  | content v =>
    exact ((expectSlot_failsInReading _ _ s).mono hP).bind
      fun id t _ => failsBy_of_ok (bind_apply _ _ _)
  | block name ps h template inverse =>
    rw [apply_block_eq]
    have hprepare : (prepareBlock slot name ps h).FailsBy P s := by
      refine ((expectSlot_failsInReading .block slot s).mono hP).bind fun id t hid => ?_
      obtain ⟨rfl, -⟩ := (Store.expectPlaceholder_yields _ slot s).of_ok hid
      exact (hhelper _ _ _ _ (hplain ps (by simp [arguments]))
        (hplain h (by simp [arguments]))).bind fun c u _ => failsBy_pure _ _
    refine hprepare.bind fun found u hfound => ?_
    obtain ⟨items, hitems, hlimit⟩ := htemplates template u (.primary hfound)
    refine (branch_failsBy hP hitems hlimit fun branch v hbranch =>
      hnested branch v ⟨template, u, .primary hfound, hbranch⟩).bind fun primary v hprimary => ?_
    have halternate : (branch? nested templates inverse).FailsBy P v := by
      by_cases hinverse : inverse = .null
      · subst hinverse
        exact failsBy_pure _ _
      · have hlooks := LooksUp.alternate hfound hprimary hinverse
        obtain ⟨items, hitems, hlimit⟩ := htemplates inverse v hlooks
        rw [branch?_of_ne_null hinverse]
        exact branch_failsBy hP hitems hlimit fun branch w hbranch =>
          hnested branch w ⟨inverse, v, hlooks, hbranch⟩
    exact halternate.bind fun alternate w _ => failsBy_of_ok (bind_apply _ _ _)

theorem splitStatement_failsByReading (h : s.PlainData statement) :
    FailsOnly IsReading (splitStatement s statement) := by
  unfold splitStatement
  cases harray : s.array? statement with
  | none => exact failsByReading_shape _
  | some items =>
    cases items with
    | nil => exact failsByReading_shape _
    | cons tag args =>
      dsimp only
      split
      · exact failsOnly_ok _
      · exact unknownTag_failsByReading _ (h.item harray List.mem_cons_self).reads

theorem splitStatement_mem {tag : StatementTag} {args : List Value}
    (h : splitStatement s statement = .ok (tag, args)) :
    ∃ items, s.array? statement = some items ∧ ∀ v ∈ args, v ∈ items := by
  unfold splitStatement at h
  cases harray : s.array? statement with
  | none => rw [harray] at h; cases h
  | some items =>
    rw [harray] at h
    cases items with
    | nil => cases h
    | cons tag' args' =>
      dsimp only at h
      split at h
      · cases h
        exact ⟨_, rfl, fun v hv => List.mem_cons_of_mem _ hv⟩
      · exact absurd h (unknownTag_ne_ok _ _ _)

theorem ofArgs_arguments {d : Display} {tag : StatementTag} {args : List Value} {st : Statement}
    (h : ofArgs d tag args = .ok st) : ∀ v ∈ st.arguments, v ∈ args := by
  unfold ofArgs at h
  split at h <;> cases h <;> simp [arguments]

theorem ofArgs_failsByReading (d : Display) (tag : StatementTag) (args : List Value) :
    FailsOnly IsReading (ofArgs d tag args) := by
  unfold ofArgs
  split <;> first | exact failsOnly_ok _ | exact failsByReading_ofShape _

theorem statementOf_failsByReading (h : s.PlainData statement) :
    FailsOnly IsReading (statementOf s statement) :=
  (splitStatement_failsByReading h).bind fun found => ofArgs_failsByReading _ found.1 found.2

theorem statementOf_mem {st : Statement} (h : statementOf s statement = .ok st) :
    ∃ items, s.array? statement = some items ∧ ∀ v ∈ st.arguments, v ∈ items := by
  unfold statementOf at h
  cases hsplit : splitStatement s statement with
  | error fault => rw [hsplit] at h; cases h
  | ok found =>
    rw [hsplit] at h
    obtain ⟨items, hitems, hmem⟩ := splitStatement_mem hsplit
    exact ⟨items, hitems, fun v hv => hmem v (ofArgs_arguments h v hv)⟩

theorem statementOf_arguments (h : s.PlainData statement) {st : Statement}
    (hst : statementOf s statement = .ok st) : ∀ v ∈ st.arguments, s.PlainData v := by
  obtain ⟨items, hitems, hmem⟩ := statementOf_mem hst
  exact fun v hv => h.item hitems (hmem v hv)

theorem interpret_failsBy (hP : ∀ fault t, fault.IsReading → P fault t)
    (h : Legible nested slot statement templates s)
    (hnested : ∀ branch u, Asks nested slot statement templates s branch u →
      (nested branch).FailsBy P u) : (interpret nested slot statement templates).FailsBy P s := by
  have hobjects := noted_objects s statement
  have hextends : s.Extends (noted s statement) := Store.extends_of_objects_eq hobjects
  intro fault t herror
  rw [interpret_apply] at herror
  cases hst : statementOf s statement with
  | error fault' =>
    rw [hst] at herror
    cases herror
    exact hP _ _ (statementOf_failsByReading h.plain _ hst)
  | ok st =>
    rw [hst] at herror
    refine apply_failsBy hP
      (fun v hv => (statementOf_arguments h.plain hst v hv).mono hextends)
      (fun index u hlooks => h.templates st index u hst hlooks)
      (fun name ps hash element e heq hparent he => ?_)
      (fun branch u hasks => hnested branch u ⟨st, hst, hasks⟩) fault t herror
    rw [Attribute.plain?_of_objects_eq hobjects] at hparent
    have he' : element? s element = some e := by
      rw [element?, Store.asNode?, Store.asObject?_of_objects_eq hobjects] at he
      exact he
    exact (h.modifiers name ps hash element e (heq ▸ hst) hparent he').mono hextends

/-! ### Levels -/

/-- What the interpreter has of a template when its statements come: the static part, the slots and
the statements. -/
structure Level where
  fragment : Value
  slots : List Value
  statements : List Value
  templates : Value

/-- Checks a template and runs its builders. -/
def prepare (m : Machine) (template : Value) : Act Level := do
  validate template
  let document ← new (.document .null)
  let fragment ← callBuilder m template "buildFragment" [document]
  expectFragment fragment
  let returned ← callBuilder m template "buildRenderNodes" [document, fragment, .null]
  let slots ← expectSlots returned
  let statements ← member "statements" template
  let templates ← member "templates" template
  let statements ← statementsOf statements
  return ⟨fragment, slots, statements, templates⟩

theorem recoverWithin_succ (m : Machine) (depth : Nat) (template : Value) :
    recoverWithin m (depth + 1) template = (do
      let level ← prepare m template
      bindSlots (recoverWithin m depth) level.slots level.statements level.templates
      return level.fragment) := by
  unfold prepare
  rw [recoverWithin]
  simp only [bind_assoc, pure_bind]

/-- Recovering a template comes to a statement at a slot: the statements before it have been carried
out. -/
def Interprets (m : Machine) (depth : Nat) (template : Value) (s : Store)
    (slot statement templates : Value) (u : Store) : Prop :=
  ∃ level before after t, prepare m template s = .ok level t ∧
    level.slots.length = level.statements.length ∧
    level.slots.zip level.statements = before ++ (slot, statement) :: after ∧
    level.templates = templates ∧
    bindAll (recoverWithin m depth) templates before t = .ok () u

/-- **Recovering a template comes to recovering another one** in a store: itself, or one that a
statement of such a template has recovered. -/
inductive Reaches (m : Machine) (depth : Nat) (template : Value) (s : Store) :
    Nat → Value → Store → Prop
  | self : Reaches m depth template s depth template s
  | nested {d : Nat} {t slot statement templates branch : Value} {u v w : Store}
      (hreach : Reaches m depth template s (d + 1) t u)
      (hstatement : Interprets m d t u slot statement templates v)
      (hasks : Asks (recoverWithin m d) slot statement templates v branch w) :
      Reaches m depth template s d branch w

theorem Reaches.trans {depth e : Nat} {t t' : Value} {v : Store}
    (h : Reaches m depth template s d t u) (h' : Reaches m d t u e t' v) :
    Reaches m depth template s e t' v := by
  induction h' with
  | self => exact h
  | nested _ hstatement hasks ih => exact .nested ih hstatement hasks

theorem Reaches.le {depth : Nat} {t : Value} (h : Reaches m depth template s d t u) :
    d ≤ depth := by
  induction h with
  | self => exact le_rfl
  | nested _ _ _ ih => omega

/-! ### Members -/

def memberOf? (s : Store) (name : String) (artifact : Value) : Option Value :=
  match artifact, s.entries? artifact with
  | .null, _ => none
  | _, some entries => s.findName? name entries
  | artifact, none => Attribute.plain? s artifact name

/-- The member of an artifact with this name; null stands for a missing one. -/
def memberOf (s : Store) (name : String) (artifact : Value) : Value :=
  (memberOf? s name artifact).getD .null

theorem member_apply (hname : name ∉ Field.containerNames) (artifact : Value) (s : Store) :
    member name artifact s = .ok (memberOf s name artifact) s := by
  have hmember : member? name artifact s = .ok (memberOf? s name artifact) s := by
    unfold member? memberOf?
    rw [bind_store]
    cases artifact with
    | null => rfl
    | _ =>
      generalize s.entries? _ = found
      cases found with
      | none => exact Attribute.find?_of_plain hname _ s
      | some entries => rfl
  exact bind_of_ok hmember

theorem memberOf_record {id : ObjectId} {fields : Fields}
    (ho : s.object? id = some (.record fields)) (hv : fields.lookup name = some v) :
    memberOf s name (.object id) = v := by
  have hvalue : Field.value? name (.record fields) = some v := hv
  simp only [memberOf, memberOf?, Store.entries?, Store.asObject?_of_object? ho, Attribute.plain?,
    hvalue, Option.some_or, Option.getD_some]

def isRevision : Value → Bool
  | .str text => Revision.isRecognized text
  | _ => false

/-- What a template has to hold, in the order in which it is checked. -/
def requirements (s : Store) (template : Value) : List (String × Bool) :=
  [("template", s.truthy template), ("meta", s.truthy (memberOf s "meta" template)),
    ("meta.revision", isRevision (memberOf s "revision" (memberOf s "meta" template))),
    ("buildFragment", s.isCallable (memberOf s "buildFragment" template)),
    ("buildRenderNodes", s.isCallable (memberOf s "buildRenderNodes" template)),
    ("statements", (s.array? (memberOf s "statements" template)).isSome),
    ("templates", (s.array? (memberOf s "templates" template)).isSome)]

/-- The name of the first requirement that does not hold. -/
def firstFailing (requirements : List (String × Bool)) : Option String :=
  (requirements.find? fun requirement => !requirement.2).map (·.1)

/-- The first member of a template that is missing or malformed. -/
def firstViolated (s : Store) (template : Value) : Option String :=
  firstFailing (requirements s template)

/-- What is wrong with a revision that names no version. -/
def revisionProblem (s : Store) (revision : Value) : ArtifactProblem :=
  if !s.truthy revision then .noMetaRevision
  else match revision with
    | .str text => .revisionUnrecognized text
    | v => .revisionNotText (s.view v)

theorem validateRevision_eq (s : Store) (revision : Value) : validateRevision s revision =
    if isRevision revision then .ok () else .error (.artifact (revisionProblem s revision)) := by
  unfold validateRevision revisionProblem
  cases revision with
  | str text =>
    by_cases htext : text = ""
    · subst htext
      rfl
    · have htruthy : s.truthy (.str text) = true := by simp [Store.truthy, htext]
      simp only [htruthy, Bool.not_true, Bool.false_eq_true, if_false, isRevision]
  | _ =>
    simp only [isRevision, Bool.false_eq_true, if_false]
    split_ifs <;> rfl

theorem revisionProblem_member (s : Store) (revision : Value) :
    (revisionProblem s revision).member = "meta.revision" := by
  unfold revisionProblem
  split_ifs
  · rfl
  · split <;> rfl

/-- What a template has to hold, with what is reported of it otherwise. -/
def checks (s : Store) (template : Value) : List (Bool × ArtifactProblem) :=
  [(s.truthy template, .noTemplate), (s.truthy (memberOf s "meta" template), .noMeta),
    (isRevision (memberOf s "revision" (memberOf s "meta" template)),
      revisionProblem s (memberOf s "revision" (memberOf s "meta" template))),
    (s.isCallable (memberOf s "buildFragment" template), .notFunction "buildFragment"),
    (s.isCallable (memberOf s "buildRenderNodes" template), .notFunction "buildRenderNodes"),
    ((s.array? (memberOf s "statements" template)).isSome, .notArray "statements"),
    ((s.array? (memberOf s "templates" template)).isSome, .notArray "templates")]

/-- The first check that fails is reported, and nothing changes. -/
def report (checks : List (Bool × ArtifactProblem)) (s : Store) : EStateM.Result Fault Store Unit :=
  match checks.find? fun check => !check.1 with
  | none => .ok () s
  | some check => .error (.artifact check.2) s

theorem report_bind {x rest : Act Unit} {cs ds : List (Bool × ArtifactProblem)}
    (hx : x s = report cs s) (hrest : rest s = report ds s) :
    (x >>= fun _ => rest) s = report (cs ++ ds) s := by
  rw [report, List.find?_append]
  unfold report at hx
  cases hfound : cs.find? fun check => !check.1 with
  | none =>
    rw [hfound] at hx
    exact (bind_of_ok hx).trans hrest
  | some check =>
    rw [hfound] at hx
    exact bind_of_error hx

theorem requireFunction_apply (name : String) (hname : name ∉ Field.containerNames) (template : Value)
    (s : Store) :
    requireFunction template name s =
      report [(s.isCallable (memberOf s name template), .notFunction name)] s := by
  refine (bind_of_ok (member_apply hname template s)).trans ?_
  rw [bind_store]
  cases s.isCallable (memberOf s name template) <;> rfl

theorem requireArray_apply (name : String) (hname : name ∉ Field.containerNames) (template : Value)
    (s : Store) :
    requireArray template name s =
      report [((s.array? (memberOf s name template)).isSome, .notArray name)] s := by
  refine (bind_of_ok (member_apply hname template s)).trans ?_
  rw [bind_store]
  cases (s.array? (memberOf s name template)).isSome <;> rfl

theorem validateMeta_apply (template : Value) (s : Store) : validateMeta template s =
    report [(s.truthy (memberOf s "meta" template), .noMeta),
      (isRevision (memberOf s "revision" (memberOf s "meta" template)),
        revisionProblem s (memberOf s "revision" (memberOf s "meta" template)))] s := by
  refine (bind_of_ok (member_apply (by decide) template s)).trans ?_
  rw [bind_store]
  cases s.truthy (memberOf s "meta" template) with
  | false => rfl
  | true =>
    refine (bind_of_ok (member_apply (by decide) _ s)).trans ?_
    rw [bind_store, validateRevision_eq]
    cases isRevision (memberOf s "revision" (memberOf s "meta" template)) <;> rfl

/-- **A template is checked** without a change. -/
theorem validate_apply (template : Value) (s : Store) :
    validate template s = report (checks s template) s := by
  have hmembers := report_bind (validateMeta_apply template s)
    (report_bind (requireFunction_apply "buildFragment" (by decide) template s)
      (report_bind (requireFunction_apply "buildRenderNodes" (by decide) template s)
        (report_bind (requireArray_apply "statements" (by decide) template s)
          (requireArray_apply "templates" (by decide) template s))))
  unfold validate checks
  rw [bind_store]
  cases s.truthy template with
  | false => rfl
  | true => exact hmembers

theorem firstViolated_eq (s : Store) (template : Value) : firstViolated s template =
    ((checks s template).find? fun check => !check.1).map (·.2.member) := by
  have h : requirements s template = (checks s template).map fun check => (check.2.member, check.1) := by
    simp only [requirements, checks, List.map_cons, List.map_nil, revisionProblem_member]
    rfl
  rw [firstViolated, firstFailing, h, List.find?_map, Option.map_map]
  rfl

/-- The first member at fault is named. -/
theorem validate_verdict (template : Value) (s : Store) :
    firstViolated s template = none ∧ validate template s = .ok () s ∨
      ∃ p : ArtifactProblem, firstViolated s template = some p.member ∧
        validate template s = .error (.artifact p) s := by
  rw [firstViolated_eq, validate_apply, report]
  cases (checks s template).find? fun check => !check.1 with
  | none => exact .inl ⟨rfl, rfl⟩
  | some check => exact .inr ⟨check.2, rfl, rfl⟩

/-! ### Faults of a template -/

/-- The builders of a template return when they are called, and leave it an array of statements. -/
def BuildersReturn (m : Machine) (template : Value) (s : Store) : Prop :=
  validate template s = .ok () s →
    ∃ fragment t, callBuilder m template "buildFragment" [.object s.next]
        (s.push (.document .null)) = .ok fragment t ∧
      ((t.asNode? fragment).isSome →
        ∃ returned u, callBuilder m template "buildRenderNodes" [.object s.next, fragment, .null] t =
            .ok returned u ∧
          (u.array? (memberOf u "statements" template)).isSome)

theorem statementsOf_of_array? (h : s.array? v = some items) : statementsOf v s = .ok items s :=
  (bind_of_ok (Container.length_of_array? h)).trans (Container.items_of_array? h)

/-- What the interpreter returns for a template was returned by the builder of its static part, and
it was a node then. -/
def BuiltNode (m : Machine) (template : Value) (s : Store) (node : Value) : Prop :=
  ∃ t, callBuilder m template "buildFragment" [.object s.next] (s.push (.document .null)) =
    .ok node t ∧ (t.asNode? node).isSome

/-- The check and the builders of a template come to its statements, or fail by a shape, or name the
member at fault before anything has changed. -/
theorem prepare_cases (h : BuildersReturn m template s) :
    (∃ level t, prepare m template s = .ok level t ∧ BuiltNode m template s level.fragment) ∨
      (∃ cause t, prepare m template s = .error (.ofShape cause) t) ∨
      ∃ p : ArtifactProblem, firstViolated s template = some p.member ∧
        prepare m template s = .error (.artifact p) s := by
  rcases validate_verdict template s with ⟨-, hok⟩ | ⟨p, hp, herror⟩
  swap
  · exact .inr (.inr ⟨p, hp, bind_of_error herror⟩)
  obtain ⟨fragment, t, hfragment, hreturn⟩ := h hok
  have hstart : ∀ f : Value → Value → Act Level, (do
      validate template
      let document ← new (.document .null)
      let fragment ← callBuilder m template "buildFragment" [document]
      f document fragment) s = f (.object s.next) fragment t := fun f =>
    (bind_of_ok hok).trans ((bind_of_ok (new_apply _ s)).trans
      (bind_of_ok hfragment))
  unfold prepare
  rw [hstart]
  cases hnode : t.asNode? fragment with
  | none =>
    refine .inr (.inl ⟨.fragmentResult (t.view fragment), t, bind_of_error ?_⟩)
    rw [expectFragment, bind_store, hnode]
    rfl
  | some found =>
    have hexpect : expectFragment fragment t = .ok () t := by
      rw [expectFragment, bind_store, hnode]
      rfl
    obtain ⟨returned, u, hreturned, hstatements⟩ := hreturn (by rw [hnode]; rfl)
    obtain ⟨statements, hstatements⟩ := Option.isSome_iff_exists.1 hstatements
    rw [bind_of_ok hexpect, bind_of_ok hreturned]
    cases hslots : u.array? returned with
    | none =>
      refine .inr (.inl ⟨.slotsResult (u.view returned), u, bind_of_error ?_⟩)
      rw [expectSlots, bind_store, hslots]
      rfl
    | some slots =>
      have hexpect : expectSlots returned u = .ok slots u := by
        rw [expectSlots, bind_store, hslots]
        rfl
      rw [bind_of_ok hexpect, bind_of_ok (member_apply (by decide) template u),
        bind_of_ok (member_apply (by decide) template u),
        bind_of_ok (statementsOf_of_array? hstatements)]
      exact .inl ⟨_, u, rfl, t, hfragment, by rw [hnode]; rfl⟩

theorem bindAll_failsBy (hP : ∀ fault t, fault.IsReading → P fault t) {pairs : List (Value × Value)}
    (h : ∀ before slot statement after u, pairs = before ++ (slot, statement) :: after →
      bindAll nested templates before s = .ok () u →
      Legible nested slot statement templates u ∧
        ∀ branch v, Asks nested slot statement templates u branch v → (nested branch).FailsBy P v) :
    (bindAll nested templates pairs).FailsBy P s := by
  induction pairs generalizing s with
  | nil => exact failsBy_pure () s
  | cons pair rest ih =>
    obtain ⟨slot, statement⟩ := pair
    obtain ⟨hlegible, hnested⟩ := h [] slot statement rest s rfl rfl
    refine (interpret_failsBy hP hlegible hnested).bind fun _ t hinterpret => ?_
    refine ih fun before slot' statement' after u hpairs hbefore => ?_
    refine h ((slot, statement) :: before) slot' statement' after u (by rw [hpairs]; rfl) ?_
    exact (bind_of_ok hinterpret).trans hbefore

/-- A fault of a declarative template is one of four kinds. One of members is about a template that
has just been reached, and it names the first of its members that is missing or malformed. Besides, a
number may have been too long to be written, or the interpreter was allowed no more nesting. -/
def Explained (m : Machine) (depth : Nat) (template : Value) (s : Store) (fault : Fault)
    (t : Store) : Prop :=
  (fault.IsDeclarative ∨ fault = .longNumber) ∧ (∀ p, fault = .artifact p →
      ∃ d t', Reaches m depth template s (d + 1) t' t ∧ firstViolated t t' = some p.member) ∨
    fault = .endless ∧ ∃ t' u, Reaches m depth template s 0 t' u

variable {m : Machine} {depth : Nat} {template : Value}

theorem explained_of_isReading (h : fault.IsReading) (t : Store) :
    Explained m depth template s fault t := by
  refine .inl ⟨h.imp_left IsSyntax.isDeclarative, ?_⟩
  rintro p rfl
  rcases h with h | h
  · exact h.elim
  · cases h

theorem Explained.of_reaches {t : Value} {v : Store} (hreach : Reaches m depth template s d t u)
    (h : Explained m d t u fault v) : Explained m depth template s fault v := by
  rcases h with ⟨hkind, hmember⟩ | ⟨hendless, t', w, h⟩
  · refine .inl ⟨hkind, fun p hp => ?_⟩
    obtain ⟨d', t', h, hviolated⟩ := hmember p hp
    exact ⟨d', t', hreach.trans h, hviolated⟩
  · exact .inr ⟨hendless, t', w, hreach.trans h⟩

/-- **Every fault of a declarative template is explained.** -/
theorem recoverWithin_failsBy
    (hbuild : ∀ d t u, Reaches m depth template s (d + 1) t u → BuildersReturn m t u)
    (hdata : ∀ d t u slot statement templates v, Reaches m depth template s (d + 1) t u →
      Interprets m d t u slot statement templates v →
      Legible (recoverWithin m d) slot statement templates v) :
    (recoverWithin m depth template).FailsBy (Explained m depth template s) s := by
  induction depth generalizing template s with
  | zero => exact failsBy_fail (.inr ⟨rfl, template, s, .self⟩)
  | succ depth ih =>
    rw [recoverWithin_succ]
    rcases prepare_cases (hbuild depth template s .self) with
      ⟨level, t, hlevel, -⟩ | ⟨cause, t, herror⟩ | ⟨p, hviolated, herror⟩
    · refine (failsBy_of_ok hlevel).bind fun level' t' hok => ?_
      rw [hlevel] at hok
      cases hok
      refine FailsBy.bind ?_ fun _ u _ => failsBy_pure _ u
      unfold bindSlots
      split_ifs with hlength
      · refine bindAll_failsBy (fun _ t h => explained_of_isReading h t)
          fun before slot statement after u hpairs hbefore => ?_
        have hstatement : Interprets m depth template s slot statement level.templates u :=
          ⟨level, before, after, t, hlevel, hlength, hpairs, rfl, hbefore⟩
        refine ⟨hdata depth template s slot statement _ u .self hstatement,
          fun branch v hasks => ?_⟩
        have hreach := Reaches.nested .self hstatement hasks
        refine (ih (fun d t' w h => hbuild d t' w (hreach.trans h))
          fun d t' w slot statement templates x h =>
            hdata d t' w slot statement templates x (hreach.trans h)).mono
          fun fault x h => h.of_reaches hreach
      · exact failsBy_fail (.inl ⟨.inl trivial, fun p hp => by cases hp⟩)
    · rintro fault u h
      rw [bind_of_error herror] at h
      cases h
      exact explained_of_isReading (isReading_ofShape cause) _
    · rintro fault u h
      rw [bind_of_error herror] at h
      cases h
      refine .inl ⟨.inl trivial, fun p' hp' => ?_⟩
      cases hp'
      exact ⟨depth, template, .self, hviolated⟩

/-- A template whose members are at fault is refused before anything has changed. -/
theorem recoverWithin_of_violated (h : firstViolated s template = some name) (m : Machine)
    (depth : Nat) :
    ∃ p : ArtifactProblem, p.member = name ∧
      recoverWithin m (depth + 1) template s = .error (.artifact p) s := by
  rcases validate_verdict template s with ⟨hnone, -⟩ | ⟨p, hp, herror⟩
  · rw [hnone] at h
    cases h
  · rw [hp] at h
    cases h
    exact ⟨p, rfl, bind_of_error herror⟩

theorem recoverWithin_builtNode {node : Value}
    (hbuild : ∀ d t u, Reaches m depth template s (d + 1) t u → BuildersReturn m t u)
    (h : recoverWithin m depth template s = .ok node t) : BuiltNode m template s node := by
  cases depth with
  | zero => cases h
  | succ depth =>
    rw [recoverWithin_succ] at h
    rcases prepare_cases (hbuild depth template s .self) with
      ⟨level, u, hlevel, hnode⟩ | ⟨cause, u, herror⟩ | ⟨p, -, herror⟩
    · rw [bind_of_ok hlevel] at h
      cases hbind : bindSlots (recoverWithin m depth) level.slots level.statements level.templates u
        with
      | ok a v =>
        rw [bind_of_ok hbind] at h
        cases h
        exact hnode
      | error fault v =>
        rw [bind_of_error hbind] at h
        cases h
    · rw [bind_of_error herror] at h
      cases h
    · rw [bind_of_error herror] at h
      cases h

end Opcode

/-- A template whose static part is a placeholder, bound by a block to the first of its templates,
which is null. -/
def nullBranchStore : Store where
  objects := #[
    .function (.routine (.mk .fragment [] (.placeholder .null))) [],
    .function (.routine (.mk .slots [] (.list [.register "fragment"]))) [],
    .list [.str "block", .str "if", .null, .null, .int 0, .null],
    .list [.object ⟨2⟩],
    .list [.null],
    .record [("revision", .str "Ember@2.0.0")],
    .record [("meta", .object ⟨5⟩), ("buildFragment", .object ⟨0⟩),
      ("buildRenderNodes", .object ⟨1⟩), ("statements", .object ⟨3⟩), ("templates", .object ⟨4⟩)]]

/-- The store in which the block is interpreted: with a document, the placeholder and the slots. -/
def nullBranchBuilt : Store :=
  ((nullBranchStore.push (.document .null)).push (.node ⟨.placeholder .null .null, .own []⟩ [])).push
    (.list [.object ⟨8⟩])

theorem nullBranch_interprets {v : Store}
    (h : Interprets (ofDepth 1) 1 (.object ⟨6⟩) nullBranchStore slot statement
      templates v) :
    slot = .object ⟨8⟩ ∧ statement = .object ⟨2⟩ ∧ templates = .object ⟨4⟩ ∧ v = nullBranchBuilt := by
  obtain ⟨level, before, after, t, hlevel, -, hpairs, rfl, hbefore⟩ := h
  have hprepare : prepare (ofDepth 1) (.object ⟨6⟩) nullBranchStore =
      .ok ⟨.object ⟨8⟩, [.object ⟨8⟩], [.object ⟨2⟩], .object ⟨4⟩⟩ nullBranchBuilt := rfl
  rw [hprepare] at hlevel
  cases hlevel
  cases before with
  | nil =>
    cases hpairs
    cases hbefore
    exact ⟨rfl, rfl, rfl, rfl⟩
  | cons pair before => simp at hpairs

theorem nullBranch_asks {branch : Value} {w : Store}
    (h : Asks (recoverWithin (ofDepth 1) 1) (.object ⟨8⟩) (.object ⟨2⟩)
      (.object ⟨4⟩) nullBranchBuilt branch w) : branch = .null := by
  obtain ⟨st, hst, index, u, hlooks, hbranch⟩ := h
  cases hst
  cases hlooks with
  | primary hprepare =>
    cases hprepare
    cases hbranch
    rfl
  | alternate _ _ hinverse => exact absurd rfl hinverse

theorem nullBranch_legible (nested : Value → Act Value) :
    Legible nested (.object ⟨8⟩) (.object ⟨2⟩) (.object ⟨4⟩) nullBranchBuilt where
  plain := Store.plainData_array rfl (by
    simp only [List.mem_cons, List.not_mem_nil, or_false]
    rintro w (rfl | rfl | rfl | rfl | rfl | rfl) <;> exact Store.plainData_scalar (by simp))
  templates := by
    rintro st index u hst hlooks
    cases hst
    cases hlooks with
    | primary hprepare =>
      cases hprepare
      exact ⟨_, rfl, by decide⟩
    | alternate _ _ hinverse => exact absurd rfl hinverse
  modifiers := by
    rintro name ps h element e hst
    cases hst

/-- A template with one statement, and no templates, whose builder of the static part makes a
paragraph, gives it a number for its modifiers, and returns it. -/
def modifierStore : Store where
  objects := #[
    .function (.routine (.mk .fragment
      [.mk (some "e") (.document "createElement") [.str "p"],
        .mk (some "dom") .value [.register "e"],
        .mk none (.document "__setattr__") [.str "element_morphs", .int 5]]
      (.register "e"))) [],
    .function (.routine (.mk .slots []
      (.list [.call (.document "createElementMorph") [.register "fragment"]]))) [],
    .list [.str "element", .str "x", .null, .null],
    .list [.object ⟨2⟩],
    .list [],
    .record [("revision", .str "Ember@2.0.0")],
    .record [("meta", .object ⟨5⟩), ("buildFragment", .object ⟨0⟩),
      ("buildRenderNodes", .object ⟨1⟩), ("statements", .object ⟨3⟩), ("templates", .object ⟨4⟩)]]

end TemplateRecovery
