import TemplateRecovery.Opcode.Expression
import TemplateRecovery.Proofs.Action

/-!
# Reading an argument in two ways

An argument is read by its arrays. How its values are shown matters for the names of arguments and for
the wording of faults only, so two ways of showing values that agree on those of an argument read it as
the same expression, or fail alike. What is read is made of those values.

* `EndAlike` compares two computations that need no store.
* `Raw.All` says that the values at the ends of an argument are of some kind.
* `Opcode.Kind` are properties of expressions that pass from their parts to them.
* `Opcode.readAlike` compares what an argument is read as.
-/

namespace TemplateRecovery

variable {items : List Raw} {r : Raw}

/-! ### Computations that end alike -/

/-- Two computations end alike: with one result of some kind, or with faults that belong together. -/
def EndAlike {α : Type} (faults : Fault → Fault → Prop) (Q : α → Prop) (x y : Except Fault α) : Prop :=
  match x, y with
  | .ok a, .ok b => b = a ∧ Q a
  | .error e, .error e' => faults e e'
  | _, _ => False

namespace EndAlike

variable {α β : Type} {faults : Fault → Fault → Prop} {Q : α → Prop} {x y : Except Fault α}

theorem ok {a : α} (ha : Q a) : EndAlike faults Q (.ok a) (.ok a) := ⟨rfl, ha⟩

theorem error {e e' : Fault} (h : faults e e') : EndAlike faults Q (.error e) (.error e') := h

/-- The two ways in which computations can end alike. -/
theorem cases (h : EndAlike faults Q x y) :
    (∃ a, x = .ok a ∧ y = .ok a ∧ Q a) ∨ ∃ e e', x = .error e ∧ y = .error e' ∧ faults e e' := by
  cases x <;> cases y
  · exact .inr ⟨_, _, rfl, rfl, h⟩
  · exact h.elim
  · exact h.elim
  · obtain ⟨rfl, ha⟩ := h
    exact .inl ⟨_, rfl, rfl, ha⟩

theorem bind {Q' : β → Prop} {f g : α → Except Fault β} (h : EndAlike faults Q x y)
    (hfg : ∀ a, Q a → EndAlike faults Q' (f a) (g a)) : EndAlike faults Q' (x >>= f) (y >>= g) := by
  rcases h.cases with ⟨a, rfl, rfl, ha⟩ | ⟨e, e', rfl, rfl, he⟩
  · exact hfg a ha
  · exact he

theorem mono {faults' : Fault → Fault → Prop} (h : EndAlike faults Q x y)
    (hfaults : ∀ e e', faults e e' → faults' e e') : EndAlike faults' Q x y := by
  rcases h.cases with ⟨a, rfl, rfl, ha⟩ | ⟨e, e', rfl, rfl, he⟩
  · exact .ok ha
  · exact hfaults e e' he

theorem eq (h : EndAlike Eq Q x y) : y = x := by
  rcases h.cases with ⟨a, rfl, rfl, -⟩ | ⟨e, e', rfl, rfl, rfl⟩ <;> rfl

theorem of_eq (h : y = x) (hQ : ∀ a, x = .ok a → Q a) : EndAlike Eq Q x y := by
  subst h
  cases y with
  | ok a => exact .ok (hQ a rfl)
  | error e => exact .error rfl

theorem of_ok (h : EndAlike faults Q x y) {a : α} (hx : x = .ok a) : Q a := by
  subst hx
  rcases h.cases with ⟨b, hb, -, hQ⟩ | ⟨e, e', he, -⟩
  · cases hb
    exact hQ
  · cases he

theorem of_error (h : EndAlike faults Q x x) {e : Fault} (hx : x = .error e) : faults e e := by
  subst hx
  exact h

end EndAlike

/-! ### The values of an argument -/

namespace Raw

/-- A value stands in an argument where it is opened no further. -/
inductive Atom : Raw → Value → Prop
  | atom (v : Value) : Atom (.atom v) v
  | list {r : Raw} {items : List Raw} {v : Value} (hr : r ∈ items) (hv : Atom r v) :
      Atom (.list items) v
  | tuple {r : Raw} {items : List Raw} {v : Value} (hr : r ∈ items) (hv : Atom r v) :
      Atom (.tuple items) v

/-- All values that stand in an argument are of some kind. -/
def All (P : Value → Prop) (r : Raw) : Prop := ∀ v, r.Atom v → P v

variable {P : Value → Prop}

theorem All.of_list (h : (Raw.list items).All P) : ∀ r ∈ items, r.All P :=
  fun _ hr v hv => h v (.list hr hv)

theorem views_eq_map (value : Value → View) (items : List Raw) :
    views value items = items.map (view value) := by
  induction items with
  | nil => rfl
  | cons r rest ih => exact congrArg (_ :: ·) ih

theorem All.of_tuple (h : (Raw.tuple items).All P) : ∀ r ∈ items, r.All P :=
  fun _ hr v hv => h v (.tuple hr hv)

mutual

/-- Induction on the arrays of an argument. -/
theorem induct {P : Raw → Prop} (atom : ∀ v, P (.atom v))
    (list : ∀ items, (∀ r ∈ items, P r) → P (.list items))
    (tuple : ∀ items, (∀ r ∈ items, P r) → P (.tuple items)) : ∀ r, P r
  | .atom v => atom v
  | .list items => list items (inductAll atom list tuple items)
  | .tuple items => tuple items (inductAll atom list tuple items)

theorem inductAll {P : Raw → Prop} (atom : ∀ v, P (.atom v))
    (list : ∀ items, (∀ r ∈ items, P r) → P (.list items))
    (tuple : ∀ items, (∀ r ∈ items, P r) → P (.tuple items)) : ∀ items : List Raw, ∀ r ∈ items, P r
  | [] => by simp
  | r :: rest =>
    List.forall_mem_cons.2 ⟨induct atom list tuple r, inductAll atom list tuple rest⟩

end

end Raw

/-- Two ways of showing values agree on those of some kind, but for faults that belong together. -/
structure Display.AgreeOn (faults : Fault → Fault → Prop) (P : Value → Prop) (d d' : Display) :
    Prop where
  view : ∀ v, P v → d'.view v = d.view v
  text : ∀ v, P v → EndAlike faults (fun _ => True) (d.text v) (d'.text v)
  shape : ∀ cause, faults (.shape cause) (.shape cause)
  long : ∀ r : Raw, r.All P → (d.raw r).repr? = none → faults .longNumber .longNumber
  tag : ∀ kind shown text, faults (.unknownTag kind shown text) (.unknownTag kind shown text)

theorem Display.agreeOn_refl (d : Display) (P : Value → Prop) : d.AgreeOn Eq P d where
  view _ _ := rfl
  text _ _ := .of_eq rfl fun _ _ => trivial
  shape _ := rfl
  long _ _ _ := rfl
  tag _ _ _ := rfl

namespace Display.AgreeOn

variable {faults : Fault → Fault → Prop} {P : Value → Prop} {d d' : Display}

theorem views_eq (h : ∀ r ∈ items, d'.raw r = d.raw r) :
    Raw.views d'.view items = Raw.views d.view items := by
  rw [Raw.views_eq_map, Raw.views_eq_map]
  exact List.map_congr_left h

section Agreement

variable (h : AgreeOn faults P d d')

include h

theorem raw (hr : r.All P) : d'.raw r = d.raw r := by
  induction r using Raw.induct with
  | atom v => exact h.view v (hr v (.atom v))
  | list items ih => exact congrArg View.list (views_eq fun r hmem => ih r hmem (hr.of_list r hmem))
  | tuple items ih =>
    exact congrArg View.tuple (views_eq fun r hmem => ih r hmem (hr.of_tuple r hmem))

theorem views (hitems : ∀ r ∈ items, r.All P) : Raw.views d'.view items = Raw.views d.view items :=
  views_eq fun r hr => h.raw (hitems r hr)

theorem rawText (hr : r.All P) : EndAlike faults (fun _ => True) (d.rawText r) (d'.rawText r) := by
  have hraw := h.raw hr
  cases r with
  | atom v => exact h.text v (hr v (.atom v))
  | list items | tuple items =>
    change EndAlike faults _ (Fault.written (d.raw _)) (Fault.written (d'.raw _))
    rw [hraw, Fault.written]
    split
    · exact .ok trivial
    · next hnone => exact .error (h.long _ hr hnone)

/-- A fault of shape that shows what is written in arguments only. -/
theorem ofShape {cause : ShapeFault}
    (hshown : ∀ w ∈ cause.shown, ∃ r : Raw, r.All P ∧ d.raw r = w) :
    faults (.ofShape cause) (.ofShape cause) := by
  unfold Fault.ofShape Fault.showing
  split_ifs with hall
  · exact h.shape cause
  · obtain ⟨w, hw, hnone⟩ : ∃ w ∈ cause.shown, w.repr? = none := by simpa using hall
    obtain ⟨r, hr, rfl⟩ := hshown w hw
    exact h.long r hr hnone

theorem ofShape_views {cause : ShapeFault}
    (hshown : cause.shown = Raw.views d.view items) (hitems : ∀ r ∈ items, r.All P) :
    faults (.ofShape cause) (.ofShape cause) :=
  h.ofShape fun w hw => by
    rw [hshown, Raw.views_eq_map] at hw
    obtain ⟨r, hr, rfl⟩ := List.mem_map.1 hw
    exact ⟨r, hitems r hr, rfl⟩

end Agreement

end Display.AgreeOn

/-! ### What is read -/

namespace Opcode

/-- Properties of expressions, of several expressions and of named arguments that pass from values and
parts to the whole. -/
structure Kind (P : Value → Prop) (Q : Expr → Prop) (Qs : List Expr → Prop)
    (Qh : List (String × Expr) → Prop) : Prop where
  literal : ∀ v, P v → Q (.literal v)
  path : ∀ p, Q (.path p)
  concat : ∀ parts, Qs parts → Q (.concat parts)
  subexpr : ∀ name ps h, Qs ps → Qh h → Q (.subexpr name ps h)
  nil : Qs []
  cons : ∀ e es, Q e → Qs es → Qs (e :: es)
  empty : Qh []
  set : ∀ name e h, Q e → Qh h → Qh (Assoc.set name e h)

theorem kind_true (P : Value → Prop) : Kind P (fun _ => True) (fun _ => True) fun _ => True := by
  constructor <;> intros <;> trivial

variable {faults : Fault → Fault → Prop} {P : Value → Prop} {Q : Expr → Prop}
  {Qs : List Expr → Prop} {Qh : List (String × Expr) → Prop} {d d' : Display}

/-- What an argument is read as, in each of the three ways. -/
structure ReadAlike (faults : Fault → Fault → Prop) (Q : Expr → Prop) (Qs : List Expr → Prop)
    (Qh : List (String × Expr) → Prop) (d d' : Display) (r : Raw) : Prop where
  param : EndAlike faults Q (param d r) (param d' r)
  params : EndAlike faults Qs (params d r) (params d' r)
  hash : EndAlike faults Qh (hash d r) (hash d' r)

section Reading

variable (hd : d.AgreeOn faults P d')
include hd

theorem unknownTag_alike {α : Type} {Q : α → Prop} (kind : TagKind) {tag : Raw} (htag : tag.All P) :
    EndAlike faults Q (unknownTag d kind tag) (unknownTag d' kind tag) := by
  rw [unknownTag, unknownTag, hd.raw htag]
  exact (hd.rawText htag).bind fun text _ => .error (hd.tag kind _ text)

theorem helperName_alike (tag : String) (hr : r.All P) :
    EndAlike faults (fun _ => True) (helperName d tag r) (helperName d' tag r) := by
  unfold helperName
  split
  · exact .ok trivial
  · rw [hd.raw hr]
    exact .error (hd.ofShape (by simpa [ShapeFault.shown] using ⟨r, hr, rfl⟩))

variable (hk : Kind P Q Qs Qh) {items : List Raw}
  (hitems : ∀ r ∈ items, r.All P ∧ ReadAlike faults Q Qs Qh d d' r)
include hk hitems

theorem expression_alike : EndAlike faults Q (expression d items) (expression d' items) := by
  have harity (tag : String) (least : Nat) (most : Option Nat) {args : List Raw}
      (hargs : ∀ r ∈ args, r ∈ items) : EndAlike faults Q
        (.error (arityFault d tag least most args)) (.error (arityFault d' tag least most args)) := by
    have hall : ∀ r ∈ args, r.All P := fun r hr => (hitems r (hargs r hr)).1
    rw [arityFault, arityFault, hd.views hall]
    exact .error (hd.ofShape_views rfl hall)
  cases items with
  | nil => exact .error (hd.shape _)
  | cons tag args =>
    have hargs (r : Raw) (hr : r ∈ args) := hitems r (List.mem_cons_of_mem _ hr)
    unfold expression
    split
    · exact unknownTag_alike hd .expression (hitems tag List.mem_cons_self).1
    · split
      · exact .ok (hk.path _)
      · have hr := (hargs _ List.mem_cons_self).1
        rw [hd.raw hr]
        exact .error (hd.ofShape (by simpa [ShapeFault.shown] using ⟨_, hr, rfl⟩))
      · exact harity _ _ _ fun r => List.mem_cons_of_mem _
    · split
      · exact (hargs _ List.mem_cons_self).2.params.bind fun parts hparts => .ok (hk.concat _ hparts)
      · exact harity _ _ _ fun r => List.mem_cons_of_mem _
    · split
      · exact (helperName_alike hd _ (hargs _ (by simp)).1).bind fun name _ =>
          .ok (hk.subexpr _ _ _ hk.nil hk.empty)
      · exact (helperName_alike hd _ (hargs _ (by simp)).1).bind fun name _ =>
          (hargs _ (by simp)).2.params.bind fun ps hps => .ok (hk.subexpr _ _ _ hps hk.empty)
      · exact (helperName_alike hd _ (hargs _ (by simp)).1).bind fun name _ =>
          (hargs _ (by simp)).2.params.bind fun ps hps =>
            (hargs _ (by simp)).2.hash.bind fun h hh => .ok (hk.subexpr _ _ _ hps hh)
      · exact harity _ _ _ fun r => List.mem_cons_of_mem _

omit hd in
theorem paramItems_alike : EndAlike faults Qs (paramItems d items) (paramItems d' items) := by
  induction items with
  | nil => exact .ok hk.nil
  | cons r rest ih =>
    rw [List.forall_mem_cons] at hitems
    exact hitems.1.2.param.bind fun e he => (ih hitems.2).bind fun es hes => .ok (hk.cons _ _ he hes)

/-- Names and values in turn, by induction on the pairs. -/
theorem hashItems_alike {done : List (String × Expr)} (hdone : Qh done) :
    EndAlike faults Qh (hashItems d items done) (hashItems d' items done) := by
  induction items using List.twoStepInduction generalizing done with
  | nil => exact .ok hdone
  | singleton key => exact .ok hdone
  | cons_cons key r rest ih _ =>
    simp only [List.forall_mem_cons] at hitems
    unfold hashItems
    exact hitems.2.1.2.param.bind fun e he => (hd.rawText hitems.1.1).bind fun name _ =>
      ih hitems.2.2 (hk.set name _ _ he hdone)

theorem array_alike : EndAlike faults Qh
    (if items.length % 2 = 1 then .error (.ofShape (.oddHash (Raw.views d.view items)))
      else hashItems d items [])
    (if items.length % 2 = 1 then .error (.ofShape (.oddHash (Raw.views d'.view items)))
      else hashItems d' items []) := by
  split_ifs
  · have hall : ∀ r ∈ items, r.All P := fun r hr => (hitems r hr).1
    rw [hd.views hall]
    exact .error (hd.ofShape_views rfl hall)
  · exact hashItems_alike hd hk hitems hk.empty

end Reading

/-- **An argument is read alike** in two ways that agree on its values, and what is read is made of
those. -/
theorem readAlike (hd : d.AgreeOn faults P d') (hk : Kind P Q Qs Qh) (hr : r.All P) :
    ReadAlike faults Q Qs Qh d d' r := by
  induction r using Raw.induct with
  | atom v =>
    have hv := hr v (.atom v)
    refine ⟨.ok (hk.literal v hv), ?_, ?_⟩
    · have hview : EndAlike faults Qs (.error (.shape (.notParams (d.view v))))
          (.error (.shape (.notParams (d'.view v)))) := by
        rw [hd.view v hv]
        exact .error (hd.shape _)
      cases v <;> first | exact .ok hk.nil | exact hview
    · have hview : EndAlike faults Qh (.error (.shape (.notHash (d.view v))))
          (.error (.shape (.notHash (d'.view v)))) := by
        rw [hd.view v hv]
        exact .error (hd.shape _)
      cases v <;> first | exact .ok hk.empty | exact hview
  | list items ih =>
    have hitems (r : Raw) (hmem : r ∈ items) := And.intro (hr.of_list r hmem) (ih r hmem (hr.of_list r hmem))
    exact ⟨expression_alike hd hk hitems, paramItems_alike hk hitems, array_alike hd hk hitems⟩
  | tuple items ih =>
    have hitems (r : Raw) (hmem : r ∈ items) :=
      And.intro (hr.of_tuple r hmem) (ih r hmem (hr.of_tuple r hmem))
    exact ⟨expression_alike hd hk hitems, paramItems_alike hk hitems, array_alike hd hk hitems⟩

end Opcode

end TemplateRecovery
