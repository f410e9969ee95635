import TemplateRecovery.Proofs.Recast.Script

/-!
# Running functions that use templates of another form

Two scripts that belong together are run side by side: each call is made on both sides with the same
arguments, each object is made on both sides under the same identity. Only where a template is passed
to a block do the objects differ, and there the hook has both of them recovered.

* `Machine.Tolerant` machines recover related templates alike, and return related arrays.
* `Script.Recast.runs` runs the pieces of a script, by induction on how they are related.
* `Machine.ofDepth_tolerant` says that all machines are tolerant.
-/

namespace TemplateRecovery

open Act Fault Routine Store Act Machine Hook Opcode Artifact

variable {args : List Value} {held : List String} {r : Region} {s s' : Store} {regs : Registers}
  {q q' : Routine} {spot : Spot} {environment : Value}

/-- What a rendering function is given: an environment with the table of hooks. -/
def HasHooks (s : Store) (environment : Value) : Prop :=
  ∃ id document table, environment = .object id ∧
    s.object? id = some (.environment document (.object table)) ∧ s.object? table = some .hooks

/-- **Machines that do not mind the form of templates and arrays.** -/
structure Machine.Tolerant (m : Machine) : Prop where
  isLocal : m.Local
  recover : ∀ {r : Region} {s s' : Store}, Alike r s s' → r.Within s → ∀ {v v' : Value},
    TemplateRel r s s' v v' → Relates SameClass Same r s s' (m.recover v) (m.recover v')
  render : ∀ {r : Region} {s s' : Store}, Alike r s s' → r.Within s → ∀ {f f' environment : Value},
    FunctionRel Recast r s s' f f' → InRegion r environment → HasHooks s environment →
    Relates SameClass Same r s s' (m.call f [.null, environment, .null])
      (m.call f' [.null, environment, .null])
  slots : ∀ {r : Region} {s s' : Store}, Alike r s s' → r.Within s → ∀ {f f' : Value}
    {args : List Value}, FunctionRel RecastSlots r s s' f f' → InRegion r args →
    Relates SameClass (fun r t t' => ArrayRel r t t') r s s' (m.call f args) (m.call f' args)

/-! ### Blocks -/

namespace Hook

variable {m : Machine} (hm : m.Tolerant) {r : Region} {s s' : Store}
include hm

theorem branch?_relates (h : Alike r s s') (hr : r.Within s) {inverse : Value}
    (hinverse : TemplateRel r s s' inverse inverse) :
    Relates SameClass Same r s s' (branch? m inverse) (branch? m inverse) := by
  unfold branch?
  split
  · exact Local.relates (local_pure h inRegion_null) sameClass_refl
  · exact hm.recover h hr hinverse

/-- A block is bound alike to templates of any form. -/
theorem bindBlock_recast (h : Alike r s s') (hr : r.Within s)
    {slot name ps hs template inverse : Value} (hslot : InRegion r slot) (hname : InRegion r name)
    (hps : InRegion r ps) (hhs : InRegion r hs) (htemplate : TemplateRel r s s' template template)
    (hinverse : TemplateRel r s s' inverse inverse) :
    Relates SameClass Same r s s' (bindBlock m slot name ps hs template inverse)
      (bindBlock m slot name ps hs template inverse) :=
  bindBlock_relates sameClass_refl h hslot hname hps hhs
    (fun _ _ _ o => hm.recover o.alike (hr.later o) (htemplate.later h o))
    fun _ _ _ o => branch?_relates hm o.alike (hr.later o) (hinverse.later h o)

/-- The block hook takes templates of any form. -/
theorem call_block_relates (h : Alike r s s') (hr : r.Within s) {templates : List Value}
    (hlength : args.length = 4) (hargs : InRegion r args)
    (htemplates : ∀ v ∈ templates, TemplateRel r s s' v v) :
    Relates SameClass Same r s s' (call m .block (args ++ templates))
      (call m .block (args ++ templates)) := by
  have hfail : Relates SameClass Same r s s' (fail .wrongType : Act Value)
      (fail .wrongType) := Local.relates (local_fail h rfl) sameClass_refl
  obtain ⟨slot, rest, rfl⟩ := List.exists_cons_of_length_eq_add_one hlength
  obtain ⟨name, ps, hs, rfl⟩ := List.length_eq_three.1 (Nat.succ.inj hlength)
  simp only [inRegion_cons, inRegion_nil, and_true] at hargs
  obtain ⟨hslot, hname, hps, hhs⟩ := hargs
  rcases templates with _ | ⟨template, _ | ⟨inverse, _ | ⟨more, rest⟩⟩⟩
  · exact hfail
  · refine (bindBlock_recast hm h hr hslot hname hps hhs (htemplates template (by simp))
      (.same inRegion_null)).bind_same fun o _ => ?_
    exact Local.relates (local_pure o.alike inRegion_null) sameClass_refl
  · refine (bindBlock_recast hm h hr hslot hname hps hhs (htemplates template (by simp))
      (htemplates inverse (by simp))).bind_same fun o _ => ?_
    exact Local.relates (local_pure o.alike inRegion_null) sameClass_refl
  · exact hfail

end Hook

/-- A call of the block hook, through the table of hooks. -/
theorem Callee.perform_block_relates {m : Machine} (hm : m.Tolerant) (h : Alike r s s')
    (hregs : regs.Fits .template held r s s') {callee : Callee}
    (hcallee : callee = .hook "block" ∨ callee = .hookItem "block") {templates : List Value}
    (hlength : args.length = 4) (hargs : InRegion r args)
    (htemplates : ∀ v ∈ templates, TemplateRel r s s' v v) :
    Relates SameClass Same r s s' (callee.perform m regs (args ++ templates))
      (callee.perform m regs (args ++ templates)) := by
  obtain ⟨id, hid, ho⟩ := hregs.hooks rfl
  have hhooks : InRegion r (Value.object id) :=
    hid ▸ hregs.region "hooks" (hregs.reserved _ (by decide))
  have hcall : ∀ {r' : Region} {t t' : Store}, Outcome r s s' r' t t' none → ∀ f,
      Relates SameClass Same r' t t' (callHook m regs (.object id) f "block" (args ++ templates))
        (callHook m regs (.object id) f "block" (args ++ templates)) := by
    intro r' t t' o f
    have hobject := asObject?_of_object? (o.hooks id ho)
    have hobject' := (o.alike.asObject? (hhooks.mono o.grows)).trans hobject
    unfold callHook
    refine relates_store ?_
    rw [hobject, hobject']
    exact call_block_relates hm o.alike (hregs.within.later o) hlength (hargs.mono o.grows)
      fun v hv => (htemplates v hv).later h o
  rcases hcallee with rfl | rfl
  · unfold Callee.perform
    rw [hid]
    exact (Local.relates (Attribute.get_local h hhooks _) sameClass_refl).bind_same
      fun o _ => hcall o _
  · unfold Callee.perform
    rw [hid]
    exact (Local.relates (Container.item_local h hhooks (inRegion_str _)) sameClass_refl).bind_same
      fun o _ => hcall o _

/-! ### Members of new templates -/

def Artifact.memberNames : List String :=
  ["revision", "meta", "render", "buildFragment", "buildRenderNodes", "statements", "templates"]

/-- **A mapping and an object with attributes have the same members** if they hold the same fields. -/
theorem Opcode.memberOf_named {id : ObjectId} {fields : Fields}
    (ho : s.object? id = some (.map (fieldEntries fields)) ∨ s.object? id = some (.record fields))
    {name : String} (hname : name ∈ memberNames) :
    memberOf s name (.object id) = (fields.lookup name).getD .null := by
  rcases ho with ho | ho
  · have hentries : s.entries? (.object id) = some (fieldEntries fields) := by
      rw [entries?, asObject?_of_object? ho]
    simp only [memberOf, memberOf?, hentries, findName?_fieldEntries]
  · have hinherent : name ∉ Alias.inherentNames :=
      (by decide +kernel : ∀ name ∈ memberNames, name ∉ Alias.inherentNames) name hname
    have hvalue : Field.value? name (.record fields) = fields.lookup name := rfl
    simp only [memberOf, memberOf?, entries?, Attribute.plain?, asObject?_of_object? ho,
      hvalue, Alias.typeMember?_of_isRecord ho rfl hinherent, Option.or_none]

/-- A new template with the same members on both sides, a mapping on one side and an object with
attributes on the other or not. -/
theorem relates_new_template (h : Alike r s s') (hr : r.Within s) {fields : Fields}
    (hfields : ∀ f ∈ fields, FunctionRel Recast r s s' f.2 f.2) {o o' : Object}
    (ho : o = .map (fieldEntries fields) ∨ o = .record fields)
    (ho' : o' = .map (fieldEntries fields) ∨ o' = .record fields) :
    Relates SameClass (fun r t t' a b => b = a ∧ TemplateRel r t t' a a) r s s' (new o)
      (new o') := by
  have hdepth : o'.depth = o.depth := by
    rcases ho with rfl | rfl <;> rcases ho' with rfl | rfl <;> rfl
  refine relates_new_apart h hr hdepth fun hnew hobject hobject' => ?_
  have hpush := h.outcome_push_apart hr hdepth
  refine .apart ⟨_, o, rfl, hnew, hobject⟩ ⟨_, o', rfl, hnew, hobject'⟩ ?_
  have hmember : memberOf (s.push o) "render" (.object s.next) =
      (fields.lookup "render").getD .null :=
    memberOf_named (by rcases ho with rfl | rfl <;> simp [hobject]) (by decide)
  have hmember' : memberOf (s'.push o') "render" (.object s.next) =
      (fields.lookup "render").getD .null :=
    memberOf_named (by rcases ho' with rfl | rfl <;> simp [hobject']) (by decide)
  rw [hmember, hmember']
  cases hfound : fields.lookup "render" with
  | none => exact .same inRegion_null
  | some f =>
    obtain ⟨before, after, rfl, -⟩ := List.lookup_eq_some_iff.1 hfound
    exact (hfields ("render", f) (by simp)).later h hpush

/-- A new array with the same items on both sides, a list on one side and a tuple on the other or
not. -/
theorem relates_new_array (h : Alike r s s') (hr : r.Within s) {items : List Value}
    (hitems : InRegion r items) {o o' : Object} (ho : o = .list items ∨ o = .tuple items)
    (ho' : o' = .list items ∨ o' = .tuple items) :
    Relates SameClass (fun r t t' a b => b = a ∧ ArrayRel r t t' a a) r s s' (new o)
      (new o') := by
  have hdepth : o'.depth = o.depth := by
    rcases ho with rfl | rfl <;> rcases ho' with rfl | rfl <;> rfl
  refine relates_new_apart h hr hdepth fun hnew hobject hobject' => ?_
  refine .apart ⟨_, o, rfl, hnew, hobject⟩ ⟨_, o', rfl, hnew, hobject'⟩ ?_ ?_ hitems
  · rw [array?, asObject?_of_object? hobject]
    rcases ho with rfl | rfl <;> rfl
  · rw [array?, asObject?_of_object? hobject']
    rcases ho' with rfl | rfl <;> rfl

/-! ### Running pieces -/

/-- What is known of the first run alone can be added. -/
theorem Act.Relates.ensure {α β : Type} {faults : Fault → Fault → Prop}
    {results : Region → Store → Store → α → β → Prop} {x : Act α} {y : Act β} {P : α → Store → Prop}
    (h : Relates faults results r s s' x y) (hx : ∀ a t, x s = .ok a t → P a t) :
    Relates faults (fun r t t' a b => results r t t' a b ∧ P a t) r s s' x y := by
  rcases h.cases with ⟨a, t, b, t', r', hok, hok', o, hab⟩ | ⟨e, t, e', t', r', herr, herr', he, o⟩
  · exact relates_of_ok hok hok' o ⟨hab, hx a t hok⟩
  · exact relates_of_error herr herr' he o

theorem Wrapper.eval_term (w : Wrapper) (m : Machine) (regs : Registers) (t : Term) :
    (w.term t).eval m regs = t.eval m regs >>= fun v => new (w.object v) := by
  cases w <;> rfl

theorem Wrapper.inRegion_object {v : Value} (hv : InRegion r v) (w : Wrapper) :
    InRegion r (w.object v) := by
  cases w <;> simpa [Wrapper.object] using hv

theorem Gatherer.eval_term (g : Gatherer) (m : Machine) (regs : Registers) (ts : List Term) :
    (g.term ts).eval m regs = evalTerms m regs ts >>= fun vs => new (g.object vs) := by
  cases g <;> rfl

theorem Gatherer.inRegion_object {vs : List Value} (hvs : InRegion r vs) (g : Gatherer) :
    InRegion r (g.object vs) := by
  cases g <;> simpa [Gatherer.object] using hvs

theorem Helper.eval_term (k : Helper) (m : Machine) (regs : Registers) (name : Term)
    (params : List Term) (hash : List (Term × Term)) :
    (k.term name params hash).eval m regs = (do
      let name ← name.eval m regs
      let params ← evalTerms m regs params
      let hash ← evalEntries m regs hash []
      new (k.object ⟨name, .own params, .own hash⟩)) := by
  cases k <;> rfl

theorem Helper.inRegion_object {c : HelperCall} (hc : InRegion r c) (k : Helper) :
    InRegion r (k.object c) := by
  cases k <;> simpa [Helper.object] using hc

theorem Term.eval_of_isConstant {t : Term} (ht : t.isConstant = true) (m : Machine)
    (regs : Registers) : t.eval m regs = t.eval m [] := by
  cases t <;> first | rfl | cases ht

namespace Script

/-- Two scripts with templates or arrays of another form, held by some registers. -/
def pairing (m : Machine) (spot : Spot) (held : List String) : Pairing :=
  ⟨m, SameClass, fun r s s' regs => regs.Fits spot held r s s'⟩

theorem pairing_lasting (m : Machine) (spot : Spot) (held : List String) :
    (pairing m spot held).Lasting where
  refl := sameClass_refl
  later h halike o := h.later halike o

/-- **How two pieces are run**: with the same result, of which what differs is known. -/
def Runs (m : Machine) (spot : Spot) (held : List String) : Piece → Piece → Prop
  | .term t, .term t' => (pairing m spot held).Terms t t'
  | .terms ts, .terms ts' => (pairing m spot held).Lists ts ts'
  | .entries es, .entries es' => (pairing m spot held).Entries es es'
  | .fields fs, .fields fs' => (pairing m spot held).Fields fs fs'
  | .form t, .form t' =>
    (pairing m spot held).Together (fun r s s' a b => b = a ∧ spot.Rel r s s' a a)
      (fun regs => t.eval m regs) fun regs => t'.eval m regs
  | .forms ts, .forms ts' =>
    (pairing m spot held).Together (fun r s s' as bs => bs = as ∧ ∀ a ∈ as, spot.Rel r s s' a a)
      (fun regs => evalTerms m regs ts) fun regs => evalTerms m regs ts'
  | .members fs, .members fs' =>
    (pairing m spot held).Together
      (fun r s s' as bs => bs = as ∧ ∀ a ∈ as, FunctionRel Routine.Recast r s s' a.2 a.2)
      (fun regs => evalFields m regs fs) fun regs => evalFields m regs fs'
  | .step st, .step st' =>
    (pairing m spot held).Together (fun r s s' a b => b = a ∧ a.Fits spot held r s s')
      (fun regs => st.run m regs) fun regs => st'.run m regs
  | .steps sts, .steps sts' =>
    (pairing m spot held).Together (fun r s s' a b => b = a ∧ a.Fits spot held r s s')
      (fun regs => sts.foldlM (Step.run m) regs) fun regs => sts'.foldlM (Step.run m) regs
  | .routine q, .routine q' => q.Recast q'
  | _, _ => False

section Pieces

variable {m : Machine} {spot : Spot} {held : List String} {t t' : Term} {ts ts' : List Term}
  {fs fs' : List (String × Term)}

theorem runs_forms (h : Runs m spot held (.form t) (.form t'))
    (hs : Runs m spot held (.forms ts) (.forms ts')) :
    Runs m spot held (.forms (t :: ts)) (.forms (t' :: ts')) := by
  intro r s s' regs halike hregs
  simp only [evalTerms]
  refine Relates.bind (h halike hregs) fun {a b r₁ s₁ s₁'} o hab => ?_
  obtain ⟨rfl, ha⟩ := hab
  refine Relates.bind (hs o.alike (hregs.later halike o)) fun {vs ws r₂ s₂ s₂'} o₁ hvs => ?_
  obtain ⟨rfl, hvs⟩ := hvs
  exact relates_of_ok rfl rfl o₁.alike.outcome_refl
    ⟨rfl, List.forall_mem_cons.2 ⟨ha.later o.alike o₁, hvs⟩⟩

theorem runs_member (k : String) (h : Runs m spot held (.term t) (.term t'))
    (hs : Runs m spot held (.members fs) (.members fs')) :
    Runs m spot held (.members ((k, t) :: fs)) (.members ((k, t') :: fs')) := by
  intro r s s' regs halike hregs
  simp only [evalFields]
  refine (h halike hregs).bind_same fun o hv => ?_
  refine Relates.bind (hs o.alike (hregs.later halike o)) fun {vs ws r₂ s₂ s₂'} o₁ hvs => ?_
  obtain ⟨rfl, hvs⟩ := hvs
  exact relates_of_ok rfl rfl o₁.alike.outcome_refl
    ⟨rfl, List.forall_mem_cons.2 ⟨.same (hv.mono o₁.grows), hvs⟩⟩

theorem runs_function (k : String) (h : Runs m spot held (.routine q) (.routine q'))
    (hs : Runs m spot held (.members fs) (.members fs')) :
    Runs m spot held (.members ((k, .routine q) :: fs)) (.members ((k, .routine q') :: fs')) := by
  intro r s s' regs halike hregs
  have hdepth : Object.depth (.function (.routine q') []) = Object.depth (.function (.routine q) []) := by
    simp only [Object.depth, Routine.Recast.height_eq h]
  have hfunction : Relates SameClass (fun r t t' a b => b = a ∧ FunctionRel Routine.Recast r t t' a a)
      r s s' (new (.function (.routine q) [])) (new (.function (.routine q') [])) :=
    relates_new_apart halike hregs.within hdepth fun hnew hobject hobject' =>
      .routines hnew hnew hobject hobject' h
  simp only [evalFields, Term.eval]
  refine Relates.bind hfunction fun {a b r₁ s₁ s₁'} o hab => ?_
  obtain ⟨rfl, hf⟩ := hab
  refine Relates.bind (hs o.alike (hregs.later halike o)) fun {vs ws r₂ s₂ s₂'} o₁ hvs => ?_
  obtain ⟨rfl, hvs⟩ := hvs
  exact relates_of_ok rfl rfl o₁.alike.outcome_refl
    ⟨rfl, List.forall_mem_cons.2 ⟨hf.later o.alike o₁, hvs⟩⟩

/-- The members of a template are evaluated first, then a mapping or an object is made of them. -/
theorem eval_mapping (m : Machine) (hnames : (fs.map (·.1)).Nodup) (ht : t = .map (namedTerms fs) ∨ t = .object fs) :
    ∃ o : Fields → Object, (∀ fields, o fields = .map (fieldEntries fields) ∨ o fields = .record fields) ∧
      ∀ regs, t.eval m regs = evalFields m regs fs >>= fun fields => new (o fields) := by
  rcases ht with rfl | rfl
  · refine ⟨fun fields => .map (fieldEntries fields), fun _ => .inl rfl, fun regs => ?_⟩
    rw [Term.eval, evalEntries_namedTerms m regs hnames (by simp)]
    simp
  · exact ⟨.record, fun _ => .inr rfl, fun regs => by rw [Term.eval]⟩

theorem runs_mapping (hnames : (fs.map (·.1)).Nodup) (hnames' : (fs'.map (·.1)).Nodup)
    (ht : t = .map (namedTerms fs) ∨ t = .object fs)
    (ht' : t' = .map (namedTerms fs') ∨ t' = .object fs')
    (h : Runs m .template held (.members fs) (.members fs')) :
    Runs m .template held (.form t) (.form t') := by
  intro r s s' regs hs hregs
  obtain ⟨o, ho, heval⟩ := eval_mapping m hnames ht
  obtain ⟨o', ho', heval'⟩ := eval_mapping m hnames' ht'
  simp only [heval, heval']
  refine Relates.bind (h hs hregs) fun {vs ws r₁ s₁ s₁'} k hvs => ?_
  obtain ⟨rfl, hvs⟩ := hvs
  exact relates_new_template k.alike (hregs.within.later k) hvs (ho _) (ho' _)

theorem eval_array (m : Machine) (ht : t = .list ts ∨ t = .tuple ts) :
    ∃ o : List Value → Object, (∀ items, o items = .list items ∨ o items = .tuple items) ∧
      ∀ regs, t.eval m regs = evalTerms m regs ts >>= fun items => new (o items) := by
  rcases ht with rfl | rfl
  · exact ⟨.list, fun _ => .inl rfl, fun regs => by rw [Term.eval]⟩
  · exact ⟨.tuple, fun _ => .inr rfl, fun regs => by rw [Term.eval]⟩

theorem runs_array (ht : t = .list ts ∨ t = .tuple ts) (ht' : t' = .list ts' ∨ t' = .tuple ts')
    (h : Runs m .array held (.terms ts) (.terms ts')) : Runs m .array held (.form t) (.form t') := by
  intro r s s' regs hs hregs
  obtain ⟨o, ho, heval⟩ := eval_array m ht
  obtain ⟨o', ho', heval'⟩ := eval_array m ht'
  simp only [heval, heval']
  refine (h hs hregs).bind_same fun k hvs => ?_
  exact relates_new_array k.alike (hregs.within.later k) hvs (ho _) (ho' _)

theorem runs_step {target : Option String} {callee : Callee}
    (htarget : ∀ name ∈ target, name ∉ held ∧ name ≠ "hooks")
    (h : Runs m spot held (.term (.call callee ts)) (.term (.call callee ts'))) :
    Runs m spot held (.step (.mk target callee ts)) (.step (.mk target callee ts')) := by
  intro r s s' regs hs hregs
  simp only [Step.run_mk]
  refine (h hs hregs).bind_same fun o hv => ?_
  refine relates_of_ok rfl rfl o.alike.outcome_refl ⟨rfl, ?_⟩
  have hregs := hregs.later hs o
  cases target with
  | none => exact hregs
  | some name =>
    obtain ⟨hname, hhooks⟩ := htarget name rfl
    exact hregs.set hname hhooks hv

theorem runs_hold {name : String} (hname : name ∈ held) (h : Runs m spot held (.form t) (.form t')) :
    Runs m spot held (.step (.mk (some name) .value [t])) (.step (.mk (some name) .value [t'])) := by
  intro r s s' regs hs hregs
  simp only [Step.run_mk, Term.eval_call_value]
  refine Relates.bind (h hs hregs) fun {a b r₁ s₁ s₁'} o hab => ?_
  obtain ⟨rfl, ha⟩ := hab
  exact relates_of_ok rfl rfl o.alike.outcome_refl ⟨rfl, (hregs.later hs o).hold hname ha⟩

theorem runs_steps {st st' : Step} {sts sts' : List Step} (h : Runs m spot held (.step st) (.step st'))
    (hs : Runs m spot held (.steps sts) (.steps sts')) :
    Runs m spot held (.steps (st :: sts)) (.steps (st' :: sts')) := by
  intro r s s' regs halike hregs
  simp only [List.foldlM_cons]
  refine Relates.bind (h halike hregs) fun {a b r₁ s₁ s₁'} o hab => ?_
  obtain ⟨rfl, ha⟩ := hab
  exact hs o.alike ha

end Pieces

def Piece.names : Piece → List String
  | .members fs => fs.map (·.1)
  | _ => []

theorem Recast.names_eq {p p' : Piece} (h : Recast spot held p p') : p'.names = p.names := by
  induction h with
  | member k _ _ _ ih => exact congrArg (k :: ·) ih
  | function k _ _ _ ih => exact congrArg (k :: ·) ih
  | _ => rfl

/-- **Pieces that are alike but for the form of templates and arrays are run alike**: by induction on
how they are related. -/
theorem Recast.runs {m : Machine} (hm : m.Tolerant) {p p' : Piece} (h : Recast spot held p p') :
    Runs m spot held p p' := by
  induction h with
  | @constant _ _ t ht =>
    intro r s s' regs hs _
    have hlocal : (t.eval m []).Local r s s' := Term.eval_local hm.isLocal t hs inRegion_nil
    rw [← Term.eval_of_isConstant ht m regs] at hlocal
    exact hlocal.relates sameClass_refl
  | register hname =>
    intro r s s' regs hs hregs
    simp only [Term.eval]
    exact Local.relates (local_pure hs (hregs.region _ hname)) sameClass_refl
  | documentField name =>
    intro r s s' regs hs hregs
    simp only [Term.eval]
    exact Local.relates (Attribute.get_local hs (hregs.region _ (hregs.reserved _ (by decide))) name)
      sameClass_refl
  | wrap w _ ih =>
    intro r s s' regs hs hregs
    simp only [Wrapper.eval_term]
    exact (pairing_lasting m _ _).new ih (fun hv => w.inRegion_object hv) hs hregs
  | gather g _ ih =>
    intro r s s' regs hs hregs
    simp only [Gatherer.eval_term]
    exact (pairing_lasting m _ _).new ih (fun hvs => g.inRegion_object hvs) hs hregs
  | helper k _ _ _ hname hparams hhash =>
    intro r s s' regs hs hregs
    simp only [Helper.eval_term]
    exact (pairing_lasting m _ _).call hname hparams hhash (fun _ _ _ _ halike _ _ hc =>
      Local.relates (local_new halike (k.inRegion_object hc)) sameClass_refl) hs hregs
  | map _ ih => exact (pairing_lasting m _ _).new ih.nil inRegion_mapObject.2
  | object _ ih => exact (pairing_lasting m _ _).new ih inRegion_recordObject.2
  | call callee _ ih =>
    intro r s s' regs hs hregs
    simp only [Term.eval]
    exact (ih hs hregs).bind_same fun o hargs =>
      Local.relates (Callee.perform_fits hm.isLocal o.alike (hregs.later hs o) callee hargs)
        sameClass_refl
  | callBlock hcallee hlength _ _ ih ihs =>
    intro r s s' regs hs hregs
    simp only [Term.eval, evalTerms_append, bind_assoc, pure_bind]
    refine Relates.bind (Relates.ensure (ih hs hregs) fun _ _ hok =>
      (evalTerms_length hok).trans hlength)
      fun {vs ws r₁ s₁ s₁'} o hvs => ?_
    obtain ⟨⟨rfl, hvs⟩, hlength⟩ := hvs
    have hregs₁ := hregs.later hs o
    refine Relates.bind (ihs o.alike hregs₁) fun {vs ws r₂ s₂ s₂'} o₁ hts => ?_
    obtain ⟨rfl, hts⟩ := hts
    exact Callee.perform_block_relates hm o₁.alike (hregs₁.later o.alike o₁) hcallee hlength
      (hvs.mono o₁.grows) hts
  | element _ _ _ _ _ _ htag hns hattributes hbound hmodifiers hchildren =>
    exact (pairing_lasting m _ _).element htag hns hattributes hbound hmodifiers hchildren
  | «attribute» _ _ hkey hvalue => exact (pairing_lasting m _ _).attribute hkey hvalue
  | block _ _ _ _ _ hname hparams hhash hprimary halternate =>
    exact (pairing_lasting m _ _).call hname hparams hhash
      ((pairing_lasting m _ _).branches hprimary halternate)
  | noTerms =>
    exact fun r s s' regs hs _ => Local.relates (local_pure hs inRegion_nil) sameClass_refl
  | terms _ _ ih ihs => exact (pairing_lasting m _ _).terms ih ihs
  | noEntries =>
    exact fun r s s' regs hs _ entries hentries => Local.relates (local_pure hs hentries) sameClass_refl
  | entries _ _ _ ihk ih ihs => exact (pairing_lasting m _ _).entries ihk ih ihs
  | noFields =>
    exact fun r s s' regs hs _ => Local.relates (local_pure hs inRegion_nil) sameClass_refl
  | fields k _ _ ih ihs => exact (pairing_lasting m _ _).fields k ih ihs
  | plain _ ih =>
    exact fun r s s' regs hs hregs => Relates.mono (ih hs hregs) (fun _ _ he => he)
      fun _ _ _ _ _ _ hab => ⟨hab.1, .same hab.2⟩
  | holder hname =>
    exact fun r s s' regs hs hregs =>
      relates_of_ok rfl rfl hs.outcome_refl ⟨rfl, hregs.held _ hname⟩
  | value _ ih =>
    intro r s s' regs hs hregs
    simp only [Term.eval_call_value]
    exact ih hs hregs
  | @mapping held t t' fs fs' hnames ht ht' h ih =>
    have hsame : fs'.map (·.1) = fs.map (·.1) := h.names_eq
    exact runs_mapping hnames (hsame ▸ hnames) ht ht' ih
  | array ht ht' _ ih => exact runs_array ht ht' ih
  | noForms =>
    exact fun r s s' regs hs _ => relates_of_ok rfl rfl hs.outcome_refl ⟨rfl, by simp⟩
  | forms _ _ ih ihs => exact runs_forms ih ihs
  | noMembers =>
    exact fun r s s' regs hs _ => relates_of_ok rfl rfl hs.outcome_refl ⟨rfl, by simp⟩
  | member k _ _ ih ihs => exact runs_member k ih ihs
  | function k _ _ ih ihs => exact runs_function k ih ihs
  | step htarget _ ih => exact runs_step htarget ih
  | hold hname _ ih => exact runs_hold hname ih
  | noSteps =>
    exact fun r s s' regs hs hregs => relates_of_ok rfl rfl hs.outcome_refl ⟨rfl, hregs⟩
  | steps _ _ ih ihs => exact runs_steps ih ihs
  | render hheld hsteps hresult => exact .render hheld hsteps hresult

end Script

/-! ### Running functions -/

section Functions

variable {m : Machine} {r : Region} {s s' : Store}

/-- The registers of a rendering function hold the table of hooks. -/
theorem Routine.hooks_of_parameters {context contextual : Value} {t : Store}
    (henvironment : HasHooks s environment)
    (h : parameters .render [context, environment, contextual] s = .ok regs t) :
    ∃ id, regs.value "hooks" = .object id ∧ s.object? id = some .hooks := by
  obtain ⟨id, document, table, rfl, ho, htable⟩ := henvironment
  have hget : ∀ name v, name ∉ Field.containerNames →
      Field.value? name (.environment document (.object table)) = some v →
      Attribute.get (.object id) name s = .ok v s := by
    intro name v hname hv
    have hplain : Attribute.plain? s (.object id) name = some v := by
      rw [Attribute.plain?, asObject?_of_object? ho]
      simp only [hv, Option.some_or]
    refine (bind_of_ok (Attribute.find?_of_plain hname _ s)).trans ?_
    rw [hplain]
    rfl
  rw [parameters, bind_of_ok (hget "dom" document (by decide) rfl),
    bind_of_ok (hget "hooks" (.object table) (by decide) rfl)] at h
  cases h
  exact ⟨table, rfl, htable⟩

/-- Registers that hold nothing of another form. -/
theorem Registers.Fits.of_inRegion (hr : r.Within s) (hheld : ∀ name ∈ reservedNames, name ∉ held)
    (hregs : InRegion r regs)
    (hhooks : spot = .template → ∃ id, regs.value "hooks" = .object id ∧ s.object? id = some .hooks) :
    Fits spot held r s s' regs where
  within := hr
  reserved := hheld
  region name _ := inRegion_registers hregs name
  held name _ := .same (inRegion_registers hregs name)
  hooks := hhooks

theorem Routine.Recast.run_relates (hm : m.Tolerant) (hq : q.Recast q') (h : Alike r s s')
    (hr : r.Within s) (he : InRegion r environment) (hhooks : HasHooks s environment) :
    Relates SameClass Same r s s' (q.run m [.null, environment, .null])
      (q'.run m [.null, environment, .null]) := by
  cases hq with
  | render hheld hsteps hresult =>
    have hargs : InRegion r [Value.null, environment, .null] := by simp [he]
    have hparameters := Local.relates (parameters_local h .render hargs) sameClass_refl
    refine Relates.bind (Relates.ensure hparameters fun regs t hok =>
      hooks_of_parameters hhooks hok) fun {regs regs' r₁ s₁ s₁'} o hregs => ?_
    obtain ⟨⟨rfl, hregs⟩, id, hid, hobject⟩ := hregs
    have hfits : regs'.Fits .template _ r₁ s₁ s₁' :=
      .of_inRegion (hr.later o) hheld hregs fun _ => ⟨id, hid, o.hooks id hobject⟩
    refine Relates.bind (hsteps.runs hm o.alike hfits) fun {regs regs' r₂ s₂ s₂'} o₁ hregs => ?_
    obtain ⟨rfl, hregs⟩ := hregs
    exact hresult.runs hm o₁.alike hregs

theorem Routine.RecastSlots.run_relates (hm : m.Tolerant) (hq : q.RecastSlots q') (h : Alike r s s')
    (hr : r.Within s) (hargs : InRegion r args) :
    Relates SameClass (fun r t t' => ArrayRel r t t') r s s' (q.run m args) (q'.run m args) := by
  cases hq with
  | mk hheld hsteps hresult =>
    refine (Local.relates (parameters_local h .slots hargs) sameClass_refl).bind_same
      fun {regs r₁ s₁ s₁'} o hregs => ?_
    have hfits : regs.Fits .array _ r₁ s₁ s₁' :=
      .of_inRegion (hr.later o) hheld hregs fun hspot => by cases hspot
    refine Relates.bind (hsteps.runs hm o.alike hfits) fun {regs regs' r₂ s₂ s₂'} o₁ hregs => ?_
    obtain ⟨rfl, hregs⟩ := hregs
    refine Relates.mono (hresult.runs hm o₁.alike hregs) (fun _ _ he => he) ?_
    rintro _ _ _ a _ _ ⟨rfl, ha⟩
    exact ha

theorem Machine.callWith_relates {results : Region → Store → Store → Value → Value → Prop}
    {id id' : ObjectId} {added added' : Fields}
    (ho : s.object? id = some (.function (.routine q) added))
    (ho' : s'.object? id' = some (.function (.routine q') added'))
    (h : Relates SameClass results r s s' (q.run m args) (q'.run m args)) :
    Relates SameClass results r s s' (callWith m (.object id) args)
      (callWith m (.object id') args) := by
  refine relates_store ?_
  simp only [ho, ho']
  exact h

/-! ### Machines -/

theorem FunctionRel.isCallable {P : Routine → Routine → Prop} {f f' : Value} (h : Alike r s s')
    (hf : FunctionRel P r s s' f f') : s'.isCallable f' = s.isCallable f := by
  cases hf with
  | same hf => exact h.isCallable hf
  | routines _ _ ho ho' _ => simp only [Store.isCallable, ho, ho']

theorem Hook.newEnvironment_hasHooks {t : Store} (h : newEnvironment s = .ok environment t) :
    HasHooks t environment := by
  cases h
  refine ⟨_, _, _, rfl, object?_push_next _ _, ?_⟩
  exact object?_push_of_some (object?_push_next _ _) _

/-- Related templates are recovered alike by machines that call their functions alike. -/
theorem Hook.recover_relates (hm : m.Tolerant) (h : Alike r s s') (hr : r.Within s) {v v' : Value}
    (hv : TemplateRel r s s' v v') :
    Relates SameClass Same r s s' (recover m v) (recover m v') := by
  cases hv with
  | same hv => exact Local.relates (recover_local hm.isLocal h hv) sameClass_refl
  | apart hv hv' hrender =>
    have hmember : Relates SameClass (FunctionRel Recast) r s s'
        (member "render" v) (member "render" v') :=
      relates_of_ok (member_apply (by decide) v s) (member_apply (by decide) v' s')
        h.outcome_refl hrender
    refine Relates.bind hmember fun {f f' r₁ s₁ s₁'} o hf => relates_store ?_
    rw [hf.isCallable o.alike]
    split_ifs
    · have hnew := Local.relates (newEnvironment_local o.alike) sameClass_refl
      refine Relates.bind (Relates.ensure hnew fun _ _ => newEnvironment_hasHooks)
        fun {environment environment' r₂ s₂ s₂'} o₁ henvironment => ?_
      obtain ⟨⟨rfl, henvironment⟩, hhooks⟩ := henvironment
      have k := o.trans o₁
      refine (hm.render o₁.alike (hr.later k) (hf.later o.alike o₁) henvironment hhooks).bind_same
        fun o₂ hresult => ?_
      exact Local.relates (expectRendered_local o₂.alike hresult) sameClass_refl
    · exact Local.relates (local_fail o.alike rfl) sameClass_refl

end Functions

/-- What stays inside the region returns one value there. -/
theorem Act.Local.relates_array {x : Act Value} (h : x.Local r s s') :
    Relates SameClass (fun r t t' => ArrayRel r t t') r s s' x x := by
  refine Relates.mono h (fun e _ he => he ▸ sameClass_refl e) ?_
  rintro _ _ _ a _ _ ⟨rfl, ha⟩
  exact .same ha

/-- **Machines do not mind the form of templates and arrays**: by induction on the depth to which calls
are nested. -/
theorem Machine.ofDepth_tolerant (depth : Nat) : (ofDepth depth).Tolerant := by
  induction depth with
  | zero =>
    refine ⟨ofDepth_local 0, ?_, ?_, ?_⟩
    · exact fun h _ _ _ _ => Local.relates (local_fail h rfl) sameClass_refl
    · exact fun h _ _ _ _ _ _ _ => Local.relates (local_fail h rfl) sameClass_refl
    · exact fun h _ _ _ _ _ _ => Local.relates_array (local_fail h rfl)
  | succ depth ih =>
    have hlocal := ofDepth_local (depth + 1)
    refine ⟨hlocal, fun h hr _ _ hv => recover_relates ih h hr hv, ?_, ?_⟩
    · intro r s s' h hr f f' environment hf he hhooks
      cases hf with
      | same hf => exact Local.relates (hlocal.call h hf (by simp [he])) sameClass_refl
      | routines _ _ ho ho' hq =>
        exact callWith_relates ho ho' (hq.run_relates ih h hr he hhooks)
    · intro r s s' h hr f f' args hf hargs
      cases hf with
      | same hf => exact Local.relates_array (hlocal.call h hf hargs)
      | routines _ _ ho ho' hq =>
        exact callWith_relates ho ho' (hq.run_relates ih h hr hargs)

end TemplateRecovery
