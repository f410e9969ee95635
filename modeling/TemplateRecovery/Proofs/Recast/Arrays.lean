import TemplateRecovery.Proofs.Exchange
import TemplateRecovery.Proofs.Grammar

/-!
# Lists and tuples as arrays

The arrays of a declarative template can be lists or tuples. What an array is read as depends on where
it stands, and so does which of its items are arrays again: the parts of a concatenation, the
parameters and named arguments of a helper, the statements of a template. In those places a list and a
tuple with the same items are read alike; the wording of a fault may differ, its class does not.

* `Fault.SameClass` compares faults without their wording.
* `Opcode.Reading` is what a value is read as, `Opcode.Layout` how the items of an array are.
* `Opcode.Recast` are two lists of values that differ in the form of their arrays.
* `Opcode.Recast.readsLater` is about statements.
-/

namespace TemplateRecovery

open Store

variable {a : Raw} {args : List Value}

/-- Faults of one class, whose wording may differ where it shows a value. If a number in the wording of
a shape is too long to be written, that counts as the fault itself. -/
def Fault.SameClass : Fault → Fault → Prop
  | .artifact _, .artifact _ => True
  | .shape _, .shape _ => True
  | .unknownTag _ _ _, .unknownTag _ _ _ => True
  | .shape _, e => e = .longNumber
  | e, .shape _ => e = .longNumber
  | e, e' => e' = e

theorem Fault.sameClass_refl (e : Fault) : e.SameClass e := by
  cases e <;> trivial

theorem Fault.sameClass_of_eq (e e' : Fault) (h : e = e') : e.SameClass e' :=
  h ▸ e.sameClass_refl

theorem Fault.sameClass_ofShape (cause cause' : ShapeFault) :
    (Fault.ofShape cause).SameClass (.ofShape cause') := by
  unfold Fault.ofShape Fault.showing
  split <;> split
  · trivial
  all_goals rfl

open Act Fault

namespace Opcode

/-! ### What items are read as -/

/-- What a value is read as. -/
inductive Reading where
  /-- It is taken as it is. -/
  | fixed
  | param
  | params
  | hash
  | statement
  | statements
  deriving DecidableEq

/-- How the items of an array are read. -/
inductive Layout where
  /-- All in one way. -/
  | all (reading : Reading)
  /-- A tag and its arguments. -/
  | expression
  /-- A tag and its arguments. -/
  | statement
  /-- The first ones in these ways, and any others as parameters. -/
  | args (readings : List Reading)
  /-- Names and values in turn, from a name on. -/
  | names
  /-- Values and names in turn, from a value on. -/
  | values

/-- How the items of an array are read that is read in some way itself. -/
def Reading.inside? : Reading → Option Layout
  | .fixed => none
  | .param => some .expression
  | .params => some (.all .param)
  | .hash => some .names
  | .statement => some .statement
  | .statements => some (.all .statement)

def ExprTag.readings : ExprTag → List Reading
  | .get => [.fixed]
  | .concat => [.params]
  | .subexpr => [.fixed, .params, .hash]

def StatementTag.readings : StatementTag → List Reading
  | .inline => [.fixed, .params, .hash]
  | .attribute => [.fixed, .param]
  | .element => [.fixed, .params, .hash]
  | .content => [.fixed]
  | .block => [.fixed, .params, .hash, .fixed, .fixed]

def Layout.reading : Layout → Reading
  | .all reading => reading
  | .expression => .fixed
  | .statement => .fixed
  | .args readings => readings.headD .param
  | .names => .fixed
  | .values => .param

/-- How the items are read that follow an item. -/
def Layout.after : Layout → Value → Layout
  | .all reading, _ => .all reading
  | .expression, tag => .args (((ExprTag.ofRaw? (.atom tag)).map ExprTag.readings).getD [])
  | .statement, tag => .args (((StatementTag.ofValue? tag).map StatementTag.readings).getD [])
  | .args readings, _ => .args readings.tail
  | .names, _ => .values
  | .values, _ => .names

/-- **Items that differ in the form of their arrays**: each is one value inside the region, or two
arrays outside of it whose items differ in this way again. -/
inductive Recast (r : Region) (s s' : Store) : Layout → List Value → List Value → Prop
  | nil {layout : Layout} : Recast r s s' layout [] []
  | same {layout : Layout} {v : Value} {vs vs' : List Value} (hv : InRegion r v)
      (hrest : Recast r s s' (layout.after v) vs vs') : Recast r s s' layout (v :: vs) (v :: vs')
  | array {layout inner : Layout} {v v' : Value} {items items' vs vs' : List Value}
      (hinside : layout.reading.inside? = some inner) (hv : Apart r s v) (hv' : Apart r s' v')
      (hitems : s.array? v = some items) (hitems' : s'.array? v' = some items')
      (hinner : Recast r s s' inner items items') (hrest : Recast r s s' (layout.after v) vs vs') :
      Recast r s s' layout (v :: vs) (v' :: vs')

/-- Two values that are read in one way and differ in the form of their arrays. -/
def RecastAs (r : Region) (s s' : Store) (reading : Reading) (v v' : Value) : Prop :=
  Recast r s s' (.args [reading]) [v] [v']

section Recast

variable {r r' : Region} {s s' t t' : Store} {layout : Layout} {v v' : Value} {vs vs' : List Value}

theorem recastAs_iff {reading : Reading} : RecastAs r s s' reading v v' ↔
    (v' = v ∧ InRegion r v) ∨ ∃ inner items items', reading.inside? = some inner ∧ Apart r s v ∧
      Apart r s' v' ∧ s.array? v = some items ∧ s'.array? v' = some items' ∧
      Recast r s s' inner items items' := by
  constructor
  · rintro (_ | ⟨hv, _⟩ | ⟨hinside, hv, hv', hitems, hitems', hinner, _⟩)
    · exact .inl ⟨rfl, hv⟩
    · exact .inr ⟨_, _, _, hinside, hv, hv', hitems, hitems', hinner⟩
  · rintro (⟨rfl, hv⟩ | ⟨inner, items, items', hinside, hv, hv', hitems, hitems', hinner⟩)
    · exact .same hv .nil
    · exact .array hinside hv hv' hitems hitems' hinner .nil

/-- The first item and the others. -/
theorem Recast.cons (h : Recast r s s' layout (v :: vs) (v' :: vs')) :
    RecastAs r s s' layout.reading v v' ∧ Recast r s s' (layout.after v) vs vs' := by
  cases h with
  | same hv hrest => exact ⟨.same hv .nil, hrest⟩
  | array hinside hv hv' hitems hitems' hinner hrest =>
    exact ⟨.array hinside hv hv' hitems hitems' hinner .nil, hrest⟩

theorem RecastAs.cons (h : RecastAs r s s' layout.reading v v')
    (hrest : Recast r s s' (layout.after v) vs vs') : Recast r s s' layout (v :: vs) (v' :: vs') := by
  rcases recastAs_iff.1 h with ⟨rfl, hv⟩ | ⟨_, _, _, hinside, hv, hv', hitems, hitems', hinner⟩
  · exact .same hv hrest
  · exact .array hinside hv hv' hitems hitems' hinner hrest

theorem Recast.eq_nil (h : Recast r s s' layout [] vs') : vs' = [] := by
  cases h
  rfl

theorem Recast.exists_cons (h : Recast r s s' layout (v :: vs) vs') : ∃ v' ws, vs' = v' :: ws ∧
    RecastAs r s s' layout.reading v v' ∧ Recast r s s' (layout.after v) vs ws := by
  cases vs' with
  | nil => cases h
  | cons v' ws => exact ⟨v', ws, rfl, h.cons⟩

theorem Recast.length_eq (h : Recast r s s' layout vs vs') : vs'.length = vs.length := by
  induction h with
  | nil => rfl
  | same _ _ ih => simp [ih]
  | array _ _ _ _ _ _ _ _ ih => simp [ih]

theorem RecastAs.fixed (h : RecastAs r s s' .fixed v v') : v' = v ∧ InRegion r v := by
  rcases recastAs_iff.1 h with h | ⟨_, _, _, hinside, _⟩
  · exact h
  · cases hinside

theorem Recast.later (h : Recast r s s' layout vs vs') (halike : Alike r s s')
    (o : Outcome r s s' r' t t' none) : Recast r' t t' layout vs vs' := by
  induction h with
  | nil => exact .nil
  | same hv _ ih => exact .same (hv.mono o.grows) ih
  | array hinside hv hv' hitems hitems' _ _ ih ih' =>
    exact .array hinside (hv.later o) (hv'.later' halike o) ((hv.kept o).array?.trans hitems)
      ((hv'.kept' halike o).array?.trans hitems') ih ih'

/-- An array leads to an object outside of the region. -/
def NestsApart (r : Region) (s : Store) (a b : ObjectId) : Prop := s.Nests a b ∧ b ∉ r

/-- Arrays that differ in form are not nested in themselves. -/
theorem Recast.acc (h : Recast r s s' layout vs vs') :
    ∀ id, .object id ∈ vs → id ∉ r → Acc (fun b a => NestsApart r s a b) id := by
  induction h with
  | nil => simp
  | same hv _ ih =>
    intro id hmem hid
    rcases List.mem_cons.1 hmem with rfl | hmem
    · exact absurd (inRegion_object.1 hv) hid
    · exact ih id hmem hid
  | array _ _ _ hitems _ _ _ ih ih' =>
    intro id hmem hid
    rcases List.mem_cons.1 hmem with rfl | hmem
    · refine ⟨id, fun b ⟨⟨others, hothers, hb⟩, hapart⟩ => ih b ?_ hapart⟩
      rw [hitems] at hothers
      cases hothers
      exact hb
    · exact ih' id hmem hid

end Recast

/-! ### Opened arrays -/

section Opened

variable {r : Region} {d d' : Display}

/-- Two arguments that are read alike. -/
def Reading.Alike (r : Region) (d d' : Display) : Reading → Raw → Raw → Prop
  | .fixed, a, b => b = a ∧ InRegion r a
  | .param, a, b => Agree SameClass r (Opcode.param d a) (Opcode.param d' b)
  | .params, a, b => Agree SameClass r (Opcode.params d a) (Opcode.params d' b)
  | .hash, a, b => Agree SameClass r (Opcode.hash d a) (Opcode.hash d' b)
  | .statement, _, _ => True
  | .statements, _, _ => True

def ArgsAlike (r : Region) (d d' : Display) : List Reading → List Raw → List Raw → Prop
  | _, [], [] => True
  | readings, a :: as, b :: bs =>
    (readings.headD .param).Alike r d d' a b ∧ ArgsAlike r d d' readings.tail as bs
  | _, _, _ => False

/-- Values, with names between them, that are read alike after any named arguments. -/
def ValuesAlike (r : Region) (d d' : Display) : List Raw → List Raw → Prop
  | [], [] => True
  | a :: as, b :: bs => Agree SameClass r (param d a) (param d' b) ∧
      ∀ done, InRegion r done → Agree SameClass r (hashItems d as done) (hashItems d' bs done)
  | _, _ => False

/-- The items of two arrays are read alike. -/
def Layout.Alike (r : Region) (d d' : Display) : Layout → List Raw → List Raw → Prop
  | .all .param, as, bs => Agree SameClass r (paramItems d as) (paramItems d' bs)
  | .all _, _, _ => True
  | .expression, as, bs => Agree SameClass r (Opcode.expression d as) (Opcode.expression d' bs)
  | .statement, _, _ => True
  | .args readings, as, bs => ArgsAlike r d d' readings as bs
  | .names, as, bs =>
    ∀ done, InRegion r done → Agree SameClass r (hashItems d as done) (hashItems d' bs done)
  | .values, as, bs => ValuesAlike r d d' as bs

theorem Layout.alike_nil (layout : Layout) : layout.Alike r d d' [] [] := by
  cases layout with
  | all reading =>
    cases reading with
    | param => exact ⟨rfl, inRegion_nil⟩
    | _ => trivial
  | expression => exact ⟨trivial, rfl⟩
  | names => exact fun _ hdone => .ok hdone
  | _ => trivial

variable (hd : Display.Agrees r d d')
include hd

omit hd in
theorem agree_ofShape {α : Type} [Names α] (cause cause' : ShapeFault) :
    Agree SameClass r (.error (.ofShape cause) : Except Fault α) (.error (.ofShape cause')) :=
  agree_error (sameClass_ofShape cause cause') (isOrdinary_ofShape cause)

theorem Reading.alike_refl (ha : InRegion r a) (reading : Reading) : reading.Alike r d d' a a := by
  cases reading with
  | fixed => exact ⟨rfl, ha⟩
  | param => exact Agree.mono (read_agree hd ha).param sameClass_of_eq
  | params => exact Agree.mono (read_agree hd ha).params sameClass_of_eq
  | hash => exact Agree.mono (read_agree hd ha).hash sameClass_of_eq
  | _ => trivial

omit hd in
theorem Reading.alike_array {b : Raw} {as bs : List Raw} (ha : a.array? = some as)
    (hb : b.array? = some bs) (hlength : bs.length = as.length) {reading : Reading} {inner : Layout}
    (hinside : reading.inside? = some inner) (h : inner.Alike r d d' as bs) :
    reading.Alike r d d' a b := by
  have hparam : ∀ {d : Display} {a : Raw} {as : List Raw}, a.array? = some as →
      Opcode.param d a = expression d as ∧ Opcode.params d a = paramItems d as ∧
        Opcode.hash d a = if as.length % 2 = 1 then .error (.ofShape (.oddHash (Raw.views d.view as)))
          else hashItems d as [] := by
    rintro d (v | items | items) as ⟨⟩ <;> exact ⟨rfl, rfl, rfl⟩
  obtain ⟨hexpression, hparams, hhash⟩ := hparam (d := d) ha
  obtain ⟨hexpression', hparams', hhash'⟩ := hparam (d := d') hb
  cases reading with
  | fixed => cases hinside
  | param =>
    cases hinside
    change Agree SameClass r (Opcode.param d a) (Opcode.param d' b)
    rw [hexpression, hexpression']
    exact h
  | params =>
    cases hinside
    change Agree SameClass r (Opcode.params d a) (Opcode.params d' b)
    rw [hparams, hparams']
    exact h
  | hash =>
    cases hinside
    change Agree SameClass r (Opcode.hash d a) (Opcode.hash d' b)
    rw [hhash, hhash', hlength]
    split_ifs
    · exact agree_ofShape _ _
    · exact h [] inRegion_nil
  | _ => trivial

omit hd in
/-- A look-up has a path and nothing else. -/
theorem expression_get {tag : Raw} (htag : ExprTag.ofRaw? tag = some .get) (args : List Raw) :
    (∃ p, args = [.atom (.str p)] ∧ ∀ d, expression d (tag :: args) = .ok (.path p)) ∨
      (∀ p, args ≠ [.atom (.str p)]) ∧ ∀ d, ∃ c, expression d (tag :: args) = .error (.ofShape c) := by
  by_cases hargs : ∃ p, args = [.atom (.str p)]
  · obtain ⟨p, rfl⟩ := hargs
    refine .inl ⟨p, rfl, fun d => ?_⟩
    unfold expression
    rw [htag]
  · rw [not_exists] at hargs
    refine .inr ⟨hargs, fun d => ?_⟩
    unfold expression
    rw [htag]
    dsimp only
    split
    · exact absurd rfl (hargs _)
    · exact ⟨_, rfl⟩
    · exact ⟨_, rfl⟩

/-- Arrays with one tag are read alike if their arguments are. -/
theorem tagged_alike {tag : Raw} {args args' : List Raw} (htag : InRegion r tag)
    (h : ArgsAlike r d d' (((ExprTag.ofRaw? tag).map ExprTag.readings).getD []) args args') :
    Agree SameClass r (expression d (tag :: args)) (expression d' (tag :: args')) := by
  cases hof : ExprTag.ofRaw? tag with
  | none =>
    unfold expression
    rw [hof]
    exact Agree.mono (unknownTag_alike hd .expression (all_of_inRegion htag)) sameClass_of_eq
  | some e =>
    rw [hof] at h
    cases e with
    | get =>
      have hargs : ∀ p, args = [.atom (.str p)] ↔ args' = [.atom (.str p)] := by
        rcases args with _ | ⟨a, _ | ⟨a₂, as⟩⟩ <;> rcases args' with _ | ⟨b, _ | ⟨b₂, bs⟩⟩ <;>
          first | exact h.elim | exact h.2.elim | simp
        obtain ⟨⟨rfl, -⟩, -⟩ := h
        exact fun _ => Iff.rfl
      rcases expression_get hof args with ⟨p, rfl, hok⟩ | ⟨hne, herror⟩
      · rw [(hargs p).1 rfl, hok, hok]
        exact .ok inRegion_exprPath
      · rcases expression_get hof args' with ⟨p, rfl, -⟩ | ⟨-, herror'⟩
        · exact absurd ((hargs p).2 rfl) (hne p)
        · obtain ⟨c, hc⟩ := herror d
          obtain ⟨c', hc'⟩ := herror' d'
          rw [hc, hc']
          exact agree_ofShape _ _
    | concat =>
      rcases args with _ | ⟨a, _ | ⟨a₂, as⟩⟩ <;> rcases args' with _ | ⟨b, _ | ⟨b₂, bs⟩⟩ <;>
        first | exact h.elim | exact h.2.elim | (unfold expression; rw [hof])
      · exact agree_ofShape _ _
      · exact EndAlike.bind h.1 fun parts hparts => .ok (inRegion_exprConcat.2 hparts)
      · exact agree_ofShape _ _
    | subexpr =>
      rcases args with _ | ⟨a, _ | ⟨a₂, _ | ⟨a₃, _ | ⟨a₄, as⟩⟩⟩⟩ <;>
        rcases args' with _ | ⟨b, _ | ⟨b₂, _ | ⟨b₃, _ | ⟨b₄, bs⟩⟩⟩⟩ <;>
        first
          | exact h.elim
          | exact h.2.elim
          | exact h.2.2.elim
          | exact h.2.2.2.elim
          | (unfold expression; rw [hof])
      · exact agree_ofShape _ _
      all_goals try obtain ⟨rfl, ha⟩ := h.1
      all_goals try have hname := (helperName_agree hd "subexpr" ha).mono sameClass_of_eq
      · exact hname.bind fun name _ => .ok (by simp)
      · exact hname.bind fun name _ => EndAlike.bind h.2.1 fun ps hps => .ok (by simp [hps])
      · exact hname.bind fun name _ => EndAlike.bind h.2.1 fun ps hps =>
          EndAlike.bind h.2.2.1 fun hs hhs => .ok (by simp [hps, hhs])
      · exact agree_ofShape _ _

/-- One more item that is read alike; a tag decides how the others are read. -/
theorem Layout.alike_cons {layout : Layout} {v : Value} {b : Raw} {as bs : List Raw}
    (ha : layout.reading.Alike r d d' a b) (htag : ExprTag.ofRaw? a = ExprTag.ofRaw? (.atom v))
    (hrest : (layout.after v).Alike r d d' as bs) : layout.Alike r d d' (a :: as) (b :: bs) := by
  cases layout with
  | all reading =>
    cases reading with
    | param =>
      exact EndAlike.bind ha fun e he => EndAlike.bind hrest fun es hes =>
        .ok (inRegion_cons.2 ⟨he, hes⟩)
    | _ => trivial
  | expression =>
    obtain ⟨rfl, ha⟩ := ha
    refine tagged_alike hd ha ?_
    rw [htag]
    exact hrest
  | statement => trivial
  | args readings => exact ⟨ha, hrest⟩
  | names =>
    obtain ⟨rfl, ha⟩ := ha
    intro done hdone
    rcases as with _ | ⟨a₂, as⟩ <;> rcases bs with _ | ⟨b₂, bs⟩
    · exact .ok hdone
    · exact hrest.elim
    · exact hrest.elim
    · exact EndAlike.bind hrest.1 fun e he =>
        EndAlike.bind ((hd.rawText (all_of_inRegion ha)).mono fun e e' heq =>
            ⟨sameClass_of_eq e e' heq.1, heq.2⟩) fun name _ =>
          hrest.2 _ (inRegion_set hdone he)
  | values => exact ⟨ha, hrest⟩

end Opened

/-! ### Arguments and statements -/

section Later

variable {r : Region} {s s' : Store} {layout : Layout} {v v' : Value} {vs vs' : List Value}

/-- Opening a value does not make it a tag. -/
theorem ofRaw?_ofValueWithin (s : Store) (fuel : Nat) (v : Value) :
    ExprTag.ofRaw? (Raw.ofValueWithin s fuel v) = ExprTag.ofRaw? (.atom v) := by
  cases hv : s.array? v with
  | none => rw [ofValueWithin_item hv]
  | some items =>
    obtain ⟨id, rfl, ho | ho⟩ := array?_eq_some hv <;> cases fuel with
    | zero => rfl
    | succ fuel =>
      rw [Raw.ofValueWithin, asObject?_of_object? ho]
      rfl

theorem ofValueWithin_array {items : List Value} (hv : s.array? v = some items) (fuel : Nat) :
    (Raw.ofValueWithin s (fuel + 1) v).array? = some (items.map (Raw.ofValueWithin s fuel)) := by
  obtain ⟨id, rfl, ho | ho⟩ := array?_eq_some hv <;>
  · rw [Raw.ofValueWithin, asObject?_of_object? ho]
    rfl

/-- Items that differ in form are opened to items that are read alike: by induction on how they
differ, along the open arrays that lead to them. -/
theorem Recast.opened (h : Recast r s s' layout vs vs') (halike : Alike r s s') (fuel : Nat)
    (opened : List ObjectId)
    (hopened : ∀ v ∈ vs, Apart r s v → Trail (NestsApart r s) s opened v)
    (hfuel : s.objects.size < opened.length + fuel) :
    layout.Alike r s.display s'.display (vs.map (Raw.ofValueWithin s fuel))
      (vs'.map (Raw.ofValueWithin s' fuel)) := by
  have hd := halike.display
  induction h generalizing fuel opened with
  | nil => exact Layout.alike_nil _
  | same hv _ ih =>
    rw [List.map_cons, List.map_cons, halike.rawWithin fuel hv]
    exact Layout.alike_cons hd (Reading.alike_refl hd (halike.inRegion_rawWithin fuel hv) _)
      (ofRaw?_ofValueWithin s fuel _) (ih fuel opened (fun w hw => hopened w (List.mem_cons_of_mem _ hw)) hfuel)
  | @array layout inner v v' items items' vs vs' hinside hv hv' hitems hitems' hinner hrest ih ih' =>
    have htrail := hopened v List.mem_cons_self hv
    have hacc := (Recast.array hinside hv hv' hitems hitems' hinner hrest).acc
    have hrest := ih' fuel opened (fun w hw => hopened w (List.mem_cons_of_mem _ hw)) hfuel
    obtain ⟨id, obj, rfl, hid, hobj⟩ := hv
    obtain ⟨n, rfl, hn⟩ := htrail.exists_fuel id hfuel
    have hitemsOpened := ih n (id :: opened) (fun w hw happart => by
      refine htrail.open (htrail.not_mem (hacc id List.mem_cons_self hid)) hobj ?_
      rintro b rfl
      obtain ⟨_, _, heq, hb, _⟩ := happart
      cases heq
      exact ⟨⟨items, hitems, hw⟩, hb⟩) hn
    rw [List.map_cons, List.map_cons]
    refine Layout.alike_cons hd ?_ (ofRaw?_ofValueWithin s _ _) hrest
    exact Reading.alike_array (ofValueWithin_array hitems n) (ofValueWithin_array hitems' n)
      (by simp [hinner.length_eq]) hinside hitemsOpened

/-- Two values that differ in form are opened to arguments that are read alike. -/
theorem RecastAs.alike {reading : Reading} (h : RecastAs r s s' reading v v') (halike : Alike r s s') :
    reading.Alike r s.display s'.display (Raw.ofValue s v) (Raw.ofValue s' v') := by
  have hopened := Recast.opened h halike (s.objects.size + 1) []
    (fun w _ _ => trail_nil _ s w) (by simp)
  rw [Raw.ofValue, Raw.ofValue, halike.size]
  exact hopened.1

theorem RecastAs.paramOf (h : RecastAs r s s' .param v v') (halike : Alike r s s') :
    RelatesLater SameClass Same r s s' (paramOf v) (paramOf v') := by
  intro r' t t' o
  refine relates_store ?_
  exact Agree.lift_bind (RecastAs.alike (Recast.later h halike o) o.alike) o.alike fun e he =>
    Local.relates (allocate_local e o.alike he) sameClass_refl

theorem RecastAs.paramsOf (h : RecastAs r s s' .params v v') (halike : Alike r s s') :
    RelatesLater SameClass Same r s s' (paramsOf v) (paramsOf v') := by
  intro r' t t' o
  refine relates_store ?_
  exact Agree.lift_bind (RecastAs.alike (Recast.later h halike o) o.alike) o.alike fun es hes =>
    Local.relates (allocateAll_local es o.alike hes) sameClass_refl

theorem RecastAs.hashOf (h : RecastAs r s s' .hash v v') (halike : Alike r s s') :
    RelatesLater SameClass Same r s s' (hashOf v) (hashOf v') := by
  intro r' t t' o
  refine relates_store ?_
  exact Agree.lift_bind (RecastAs.alike (Recast.later h halike o) o.alike) o.alike fun hs hhs =>
    Local.relates (allocateHash_local hs o.alike hhs) sameClass_refl

theorem Statement.ofArgs_of_length_lt {tag : StatementTag} (h : args.length < tag.arity)
    (d : Display) : Statement.ofArgs d tag args =
      .error (.ofShape (.arity tag.name tag.arity none (args.map d.view))) := by
  unfold Statement.ofArgs
  split
  all_goals first | rfl | (simp only [List.length_cons, StatementTag.arity] at h; omega)

/-- Helpers with one name whose arguments differ in form. -/
theorem Recast.helper {readings : List Reading} {name ps hs : Value} {rest : List Value}
    (h : Recast r s s' (.args (.fixed :: .params :: .hash :: readings)) (name :: ps :: hs :: rest) args) :
    ∃ ps' hs' rest', args = name :: ps' :: hs' :: rest' ∧ InRegion r name ∧
      RecastAs r s s' .params ps ps' ∧ RecastAs r s s' .hash hs hs' ∧
      Recast r s s' (.args readings) rest rest' := by
  obtain ⟨_, args, rfl, hname, h⟩ := h.exists_cons
  obtain ⟨rfl, hname⟩ := hname.fixed
  obtain ⟨ps', args, rfl, hps, h⟩ := h.exists_cons
  obtain ⟨hs', args, rfl, hhs, h⟩ := h.exists_cons
  exact ⟨ps', hs', args, rfl, hname, hps, hhs, h⟩

/-- Statements with one tag whose arguments differ in form belong together, or both have too few
arguments. -/
theorem Statement.related_of_recast (halike : Alike r s s') {tag : StatementTag}
    {args' : List Value} (h : Recast r s s' (.args tag.readings) args args') (d d' : Display) :
    (∃ st st', Statement.ofArgs d tag args = .ok st ∧ Statement.ofArgs d' tag args' = .ok st' ∧
      st.Related SameClass r s s' st') ∨
      ∃ c c', Statement.ofArgs d tag args = .error (.ofShape c) ∧
        Statement.ofArgs d' tag args' = .error (.ofShape c') := by
  by_cases hlength : args.length < tag.arity
  · exact .inr ⟨_, _, Statement.ofArgs_of_length_lt hlength d,
      Statement.ofArgs_of_length_lt (h.length_eq ▸ hlength) d'⟩
  left
  cases tag with
  | content =>
    rcases args with _ | ⟨a, rest⟩
    · exact absurd (by simp [StatementTag.arity]) hlength
    obtain ⟨_, _, rfl, ha, -⟩ := h.exists_cons
    obtain ⟨rfl, ha⟩ := ha.fixed
    exact ⟨_, _, rfl, rfl, .content ha⟩
  | «attribute» =>
    rcases args with _ | ⟨a, _ | ⟨b, rest⟩⟩
    iterate 2 exact absurd (by simp [StatementTag.arity]) hlength
    obtain ⟨_, _, rfl, -, h⟩ := h.exists_cons
    obtain ⟨_, _, rfl, hb, -⟩ := h.exists_cons
    exact ⟨_, _, rfl, rfl, .attribute (hb.paramOf halike)⟩
  | inline =>
    rcases args with _ | ⟨name, _ | ⟨ps, _ | ⟨hs, rest⟩⟩⟩
    iterate 3 exact absurd (by simp [StatementTag.arity]) hlength
    obtain ⟨_, _, _, rfl, hname, hps, hhs, -⟩ := Recast.helper h
    exact ⟨_, _, rfl, rfl, .inline hname (hps.paramsOf halike) (hhs.hashOf halike)⟩
  | element =>
    rcases args with _ | ⟨name, _ | ⟨ps, _ | ⟨hs, rest⟩⟩⟩
    iterate 3 exact absurd (by simp [StatementTag.arity]) hlength
    obtain ⟨_, _, _, rfl, hname, hps, hhs, -⟩ := Recast.helper h
    exact ⟨_, _, rfl, rfl, .element hname (hps.paramsOf halike) (hhs.hashOf halike)⟩
  | block =>
    rcases args with _ | ⟨name, _ | ⟨ps, _ | ⟨hs, _ | ⟨template, _ | ⟨inverse, rest⟩⟩⟩⟩⟩
    iterate 5 exact absurd (by simp [StatementTag.arity]) hlength
    obtain ⟨_, _, _, rfl, hname, hps, hhs, h⟩ := Recast.helper h
    obtain ⟨_, _, rfl, htemplate, h⟩ := h.exists_cons
    obtain ⟨_, _, rfl, hinverse, -⟩ := h.exists_cons
    obtain ⟨rfl, htemplate⟩ := htemplate.fixed
    obtain ⟨rfl, hinverse⟩ := hinverse.fixed
    exact ⟨_, _, rfl, rfl,
      .block hname (hps.paramsOf halike) (hhs.hashOf halike) htemplate hinverse⟩

/-- **Statements that differ in form are read alike.** -/
theorem RecastAs.readsLater (h : RecastAs r s s' .statement v v') (halike : Alike r s s') :
    ReadsLater SameClass r s s' v v' := by
  intro r' t t' o
  rcases recastAs_iff.1 (Recast.later h halike o) with
    ⟨rfl, hv⟩ | ⟨inner, items, items', hinside, -, -, hitems, hitems', hinner⟩
  · exact readsLater_of_region sameClass_refl hv o.alike.outcome_refl
  cases hinside
  rcases items with _ | ⟨tag, args⟩
  · obtain rfl := hinner.eq_nil
    refine reads_of_split sameClass_refl o.alike ?_
    unfold splitStatement
    rw [hitems, hitems']
    exact agree_error trivial rfl
  obtain ⟨tag', args', rfl, htag, hargs⟩ := hinner.exists_cons
  obtain ⟨heq, htag⟩ := htag.fixed
  subst heq
  cases hof : StatementTag.ofValue? tag' with
  | none =>
    refine reads_of_split sameClass_refl o.alike ?_
    unfold splitStatement
    rw [hitems, hitems']
    simp only [hof]
    rw [o.alike.raw htag]
    exact Agree.mono (unknownTag_alike o.alike.display .statement
      (all_of_inRegion (o.alike.inRegion_raw htag))) sameClass_of_eq
  | some found =>
    simp only [Layout.after, hof, Option.map_some, Option.getD_some] at hargs
    have hst : statementOf t v = Statement.ofArgs t.display found args := by
      unfold statementOf splitStatement
      rw [hitems]
      simp only [hof]
      rfl
    have hst' : statementOf t' v' = Statement.ofArgs t'.display found args' := by
      unfold statementOf splitStatement
      rw [hitems']
      simp only [hof]
      rfl
    unfold Reads
    rw [hst, hst']
    rcases Statement.related_of_recast o.alike hargs t.display t'.display with
      ⟨st, st', hok, hok', hrelated⟩ | ⟨c, c', herror, herror'⟩
    · rw [hok, hok']
      exact hrelated
    · rw [herror, herror']
      exact ⟨sameClass_ofShape c c', isOrdinary_ofShape c⟩

end Later

end Opcode

end TemplateRecovery
