import TemplateRecovery.Proofs.Locality.Builtins
import TemplateRecovery.Proofs.Locality.Document

/-!
# Machines stay in their region

* `Term.eval_local`, `Step.run_local` and `Routine.run_local` are about scripts.
* `Machine.ofDepth_local`: whatever a machine calls or recovers, two stores that agree on a region
  which holds the arguments cannot be told apart.
-/

namespace TemplateRecovery

open Act

variable {v : Value} {args : List Value}

variable {r : Region} {s s' : Store}

/-! ### Scripts -/

theorem inRegion_registers {regs : Registers} (hregs : InRegion r regs) (name : String) :
    InRegion r (regs.value name) :=
  inRegion_getD (inRegion_lookup hregs name) inRegion_null

theorem Registers.value_set (regs : Registers) (name x : String) (v : Value) :
    Registers.value (Assoc.set name v regs) x = if x = name then v else regs.value x := by
  rw [Registers.value, Assoc.lookup_set]
  split_ifs
  · rfl
  · rfl

theorem bindEntry_local (h : Alike r s s') {entries : Entries} {key : Value}
    (he : InRegion r entries) (hkey : InRegion r key) (hv : InRegion r v) :
    (bindEntry entries key v).Local r s s' := by
  refine local_store ?_
  rw [h.isKey hkey, h.insert hkey he]
  split_ifs
  · exact local_pure h (Alike.inRegion_insert hkey hv he)
  · exact local_fail h rfl

theorem floatOf_local (h : Alike r s s') (text : String) : (floatOf text).Local r s s' :=
  Local.bind (local_lift h (fun _ _ => inRegion_double _) (Builtin.readFloat_ordinary text))
    fun o _ => local_newFloat o.alike _

theorem failAs_local (h : Alike r s s') (kind : String) (hv : InRegion r v) :
    (failAs kind v).Local r s s' := by
  unfold failAs
  split
  · exact local_fail h rfl
  · split_ifs
    · exact local_noKey h hv
    · exact (local_text h hv).bind fun o _ => local_fail o.alike rfl

theorem Hook.inRegion_whole {environment context : Value} (henvironment : InRegion r environment)
    (hcontext : InRegion r context) (hargs : InRegion r args) (hook : Hook) :
    InRegion r (hook.whole environment context args) := by
  unfold Hook.whole
  split <;> simp_all

/-! Two scripts are run side by side. -/

/-- How two scripts are run side by side: the faults that belong together, and the registers. -/
structure Pairing where
  machine : Machine
  faults : Fault → Fault → Prop
  fits : Region → Store → Store → Registers → Prop

namespace Pairing

variable (P : Pairing)

/-- Two actions that end alike with all registers. -/
def Together {α : Type} (results : Region → Store → Store → α → α → Prop) (x y : Registers → Act α) :
    Prop :=
  ∀ ⦃r : Region⦄ ⦃s s' : Store⦄ ⦃regs : Registers⦄, Alike r s s' → P.fits r s s' regs →
    Relates P.faults results r s s' (x regs) (y regs)

/-- Two arguments with the same value. -/
abbrev Terms (t t' : Term) : Prop :=
  P.Together Same (fun regs => t.eval P.machine regs) fun regs => t'.eval P.machine regs

abbrev Lists (ts ts' : List Term) : Prop :=
  P.Together Same (fun regs => evalTerms P.machine regs ts) fun regs => evalTerms P.machine regs ts'

abbrev Fields (fs fs' : List (String × Term)) : Prop :=
  P.Together Same (fun regs => evalFields P.machine regs fs) fun regs => evalFields P.machine regs fs'

/-- Two lists of entries that are added alike to those that there are. -/
def Entries (es es' : List (Term × Term)) : Prop :=
  ∀ ⦃r : Region⦄ ⦃s s' : Store⦄ ⦃regs : Registers⦄, Alike r s s' → P.fits r s s' regs →
    ∀ ⦃entries : TemplateRecovery.Entries⦄, InRegion r entries → Relates P.faults Same r s s'
      (evalEntries P.machine regs es entries) (evalEntries P.machine regs es' entries)

/-- What registers hold lasts as long as the two runs go on. -/
structure Lasting : Prop where
  refl : ∀ e, P.faults e e
  later : ∀ {r r' : Region} {s s' t t' : Store} {regs : Registers}, P.fits r s s' regs →
    Alike r s s' → Outcome r s s' r' t t' none → P.fits r' t t' regs

variable {P} {t t' u u' : Term} {ts ts' : List Term} {es es' : List (Term × Term)}
  {fs fs' : List (String × Term)}

theorem Entries.nil (h : P.Entries es es') :
    P.Together Same (fun regs => evalEntries P.machine regs es []) fun regs =>
      evalEntries P.machine regs es' [] :=
  fun _ _ _ _ hs hregs => h hs hregs inRegion_nil

namespace Lasting

variable (hl : P.Lasting)
include hl

/-- Something is evaluated, and an object is made of it. -/
theorem new {α : Type} [Names α] {x y : Registers → Act α} {o : α → Object}
    (h : P.Together Same x y) (ho : ∀ {r : Region} {a : α}, InRegion r a → InRegion r (o a)) :
    P.Together Same (fun regs => x regs >>= fun a => Act.new (o a)) fun regs =>
      y regs >>= fun a => Act.new (o a) :=
  fun _ _ _ _ hs hregs => (h hs hregs).bind_same fun k ha =>
    (local_new k.alike (ho ha)).relates hl.refl

/-- A helper name, its parameters and its named arguments are evaluated in this order. -/
theorem call {make make' : Registers → HelperCall → Act Value} (hname : P.Terms t t')
    (hparams : P.Lists ts ts') (hhash : P.Entries es es')
    (hmake : ∀ ⦃r : Region⦄ ⦃s s' : Store⦄ ⦃regs : Registers⦄, Alike r s s' → P.fits r s s' regs →
      ∀ {c : HelperCall}, InRegion r c → Relates P.faults Same r s s' (make regs c) (make' regs c)) :
    P.Together Same
      (fun regs => do
        let name ← t.eval P.machine regs
        let params ← evalTerms P.machine regs ts
        let hash ← evalEntries P.machine regs es []
        make regs ⟨name, .own params, .own hash⟩)
      (fun regs => do
        let name ← t'.eval P.machine regs
        let params ← evalTerms P.machine regs ts'
        let hash ← evalEntries P.machine regs es' []
        make' regs ⟨name, .own params, .own hash⟩) := by
  intro r s s' regs hs hregs
  refine (hname hs hregs).bind_same fun o hn => ?_
  refine (hparams o.alike (hl.later hregs hs o)).bind_same fun o₁ hps => ?_
  have k₁ := o.trans o₁
  refine (hhash o₁.alike (hl.later hregs hs k₁) inRegion_nil).bind_same fun o₂ hhs => ?_
  refine hmake o₂.alike (hl.later hregs hs (k₁.trans o₂)) (inRegion_call.2 ⟨?_, ?_, ?_⟩)
  · exact hn.mono (o₁.grows.trans o₂.grows)
  · exact inRegion_ownItems.2 (hps.mono o₂.grows)
  · exact inRegion_ownEntries.2 hhs

theorem terms (h : P.Terms t t') (hs : P.Lists ts ts') : P.Lists (t :: ts) (t' :: ts') := by
  intro r s s' regs halike hregs
  simp only [evalTerms]
  refine (h halike hregs).bind_same fun o hv => ?_
  refine (hs o.alike (hl.later hregs halike o)).bind_same fun o₁ hvs => ?_
  exact (local_pure o₁.alike (inRegion_cons.2 ⟨hv.mono o₁.grows, hvs⟩)).relates hl.refl

theorem entries (hk : P.Terms t t') (h : P.Terms u u') (hs : P.Entries es es') :
    P.Entries ((t, u) :: es) ((t', u') :: es') := by
  intro r s s' regs halike hregs entries hentries
  simp only [evalEntries]
  refine (hk halike hregs).bind_same fun o hkey => ?_
  refine (h o.alike (hl.later hregs halike o)).bind_same fun o₁ hv => ?_
  have k₁ := o.trans o₁
  refine ((bindEntry_local o₁.alike (hentries.mono k₁.grows) (hkey.mono o₁.grows) hv).relates
    hl.refl).bind_same fun o₂ hentries => ?_
  exact hs o₂.alike (hl.later hregs halike (k₁.trans o₂)) hentries

theorem fields (k : String) (h : P.Terms t t') (hs : P.Fields fs fs') :
    P.Fields ((k, t) :: fs) ((k, t') :: fs') := by
  intro r s s' regs halike hregs
  simp only [evalFields]
  refine (h halike hregs).bind_same fun o hv => ?_
  refine (hs o.alike (hl.later hregs halike o)).bind_same fun o₁ hfields => ?_
  exact (local_pure o₁.alike (inRegion_cons.2
    ⟨inRegion_prod.2 ⟨inRegion_string k, hv.mono o₁.grows⟩, hfields⟩)).relates hl.refl

theorem element {bound bound' modifiers modifiers' : List Term} (htag : P.Terms t t')
    (hns : P.Terms u u') (hattributes : P.Entries es es') (hbound : P.Lists bound bound')
    (hmodifiers : P.Lists modifiers modifiers') (hchildren : P.Lists ts ts') :
    P.Terms (.element t u es bound modifiers ts) (.element t' u' es' bound' modifiers' ts') := by
  intro r s s' regs hs hregs
  simp only [Term.eval]
  refine (htag hs hregs).bind_same fun o htag => ?_
  refine (hns o.alike (hl.later hregs hs o)).bind_same fun o₁ hns => ?_
  have k₁ := o.trans o₁
  refine (hattributes o₁.alike (hl.later hregs hs k₁) inRegion_nil).bind_same fun o₂ ha => ?_
  have k₂ := k₁.trans o₂
  refine (hbound o₂.alike (hl.later hregs hs k₂)).bind_same fun o₃ hb => ?_
  have k₃ := k₂.trans o₃
  refine (hmodifiers o₃.alike (hl.later hregs hs k₃)).bind_same fun o₄ hm => ?_
  have k₄ := k₃.trans o₄
  refine (hchildren o₄.alike (hl.later hregs hs k₄)).bind_same fun o₅ hc => ?_
  refine Local.relates (local_new o₅.alike ?_) hl.refl
  have g₃ := o₄.grows.trans o₅.grows
  have g₁ := o₂.grows.trans (o₃.grows.trans g₃)
  simp [hc, hm.mono o₅.grows, hb.mono g₃, ha.mono (o₃.grows.trans g₃), hns.mono g₁,
    htag.mono (o₁.grows.trans g₁)]

theorem «attribute» (hkey : P.Terms t t') (hvalue : P.Terms u u') :
    P.Terms (.attribute t u) (.attribute t' u') := by
  intro r s s' regs hs hregs
  simp only [Term.eval]
  refine (hkey hs hregs).bind_same fun o hkey => ?_
  refine (hvalue o.alike (hl.later hregs hs o)).bind_same fun o₁ hv => ?_
  exact Local.relates (local_new o₁.alike (by simpa [hv] using hkey.mono o₁.grows)) hl.refl

/-- What is made of a block: its branches, and the block. -/
theorem branches (hprimary : P.Terms t t') (halternate : P.Terms u u') ⦃r : Region⦄ ⦃s s' : Store⦄
    ⦃regs : Registers⦄ (hs : Alike r s s') (hregs : P.fits r s s' regs) {c : HelperCall}
    (hc : InRegion r c) :
    Relates P.faults Same r s s'
      (do
        let primary ← t.eval P.machine regs
        let alternate ← u.eval P.machine regs
        newMorph (.block c primary alternate))
      (do
        let primary ← t'.eval P.machine regs
        let alternate ← u'.eval P.machine regs
        newMorph (.block c primary alternate)) := by
  refine (hprimary hs hregs).bind_same fun o hp => ?_
  refine (halternate o.alike (hl.later hregs hs o)).bind_same fun o₁ ha => ?_
  exact Local.relates (local_new o₁.alike (inRegion_morphObject.2 ⟨inRegion_block.2
    ⟨hp.mono o₁.grows, ha, hc.mono (o.grows.trans o₁.grows)⟩, inRegion_nil⟩)) hl.refl

end Lasting

/-- A script beside itself, with registers inside the region. -/
def inside (m : Machine) : Pairing := ⟨m, Eq, fun r _ _ regs => InRegion r regs⟩

theorem inside_lasting (m : Machine) : (inside m).Lasting where
  refl _ := rfl
  later h _ o := h.mono o.grows

end Pairing

section Script

open Pairing

variable {m : Machine} {regs : Registers}

theorem callHook_local (hm : m.Local) (h : Alike r s s') (hregs : InRegion r regs) {hooks found : Value}
    (hhooks : InRegion r hooks) (hfound : InRegion r found) (name : String)
    (hargs : InRegion r args) : (callHook m regs hooks found name args).Local r s s' := by
  refine local_store ?_
  rw [h.asObject? hhooks]
  split
  · exact Hook.call_local hm h _ hargs
  · exact hm.call h hfound (Hook.inRegion_whole (inRegion_registers hregs "env")
      (inRegion_registers hregs "context") hargs _)
  · exact hm.call h hfound hargs

theorem Callee.perform_local (hm : m.Local) (h : Alike r s s') (hregs : InRegion r regs) (callee : Callee)
    (hargs : InRegion r args) : (callee.perform m regs args).Local r s s' := by
  unfold Callee.perform
  split
  · exact (Attribute.get_local h (inRegion_registers hregs "dom") _).bind fun o hf =>
      hm.call o.alike hf (hargs.mono o.grows)
  · exact (Attribute.get_local h (inRegion_registers hregs "hooks") _).bind fun o hf =>
      callHook_local hm o.alike (hregs.mono o.grows)
        (inRegion_registers (hregs.mono o.grows) "hooks") hf _ (hargs.mono o.grows)
  · exact (Container.item_local h (inRegion_registers hregs "hooks") (inRegion_str _)).bind
      fun o hf => callHook_local hm o.alike (hregs.mono o.grows)
        (inRegion_registers (hregs.mono o.grows) "hooks") hf _ (hargs.mono o.grows)
  · exact Container.item_local h (inRegion_registers hregs "env") (inRegion_str _)
  · exact local_pure h (inRegion_cons.1 hargs).1
  · exact failAs_local h _ (inRegion_cons.1 (inRegion_cons.1 hargs).2).1
  · exact local_fail h rfl

mutual

/-- Evaluating an argument: by recursion on the argument. -/
theorem Term.eval_local (hm : m.Local) : ∀ t : Term, (inside m).Terms t t
  | .null => fun _ _ _ _ h _ => local_pure h inRegion_null
  | .bool _ => fun _ _ _ _ h _ => local_pure h (inRegion_boolValue _)
  | .int _ => fun _ _ _ _ h _ => local_pure h (inRegion_intValue _)
  | .float text => fun _ _ _ _ h _ => floatOf_local h text
  | .str _ => fun _ _ _ _ h _ => local_pure h (inRegion_str _)
  | .list items => (inside_lasting m).new (evalTerms_local hm items) inRegion_listObject.2
  | .tuple items => (inside_lasting m).new (evalTerms_local hm items) inRegion_tupleObject.2
  | .map entries => (inside_lasting m).new (evalEntries_local hm entries).nil inRegion_mapObject.2
  | .object fields => (inside_lasting m).new (evalFields_local hm fields) inRegion_recordObject.2
  | .register name => fun _ _ _ _ h hregs => local_pure h (inRegion_registers hregs name)
  | .documentField name => fun _ _ _ _ h hregs =>
      Attribute.get_local h (inRegion_registers hregs "dom") name
  | .call callee args => fun _ _ _ _ h hregs => (evalTerms_local hm args h hregs).bind_same fun o hargs =>
      callee.perform_local hm o.alike (hregs.mono o.grows) hargs
  | .routine _ => fun _ _ _ _ h _ =>
      local_new h (inRegion_functionObject.2 ⟨inRegion_routine, inRegion_nil⟩)
  | .literal t => (inside_lasting m).new (t.eval_local hm) fun hv =>
      inRegion_expressionObject.2 (inRegion_literal.2 hv)
  | .path t => (inside_lasting m).new (t.eval_local hm) fun hv =>
      inRegion_expressionObject.2 (inRegion_path.2 hv)
  | .concat parts => (inside_lasting m).new (evalTerms_local hm parts) fun hparts =>
      inRegion_expressionObject.2 (inRegion_concat.2 hparts)
  | .subexpr name params hash => (inside_lasting m).call (name.eval_local hm)
      (evalTerms_local hm params) (evalEntries_local hm hash) fun _ _ _ _ h _ _ hc =>
        local_new h (inRegion_expressionObject.2 hc)
  | .fragment children => (inside_lasting m).new (evalTerms_local hm children) fun hc => by
      simpa using hc
  | .element tag ns attributes bound modifiers children =>
      (inside_lasting m).element (tag.eval_local hm) (ns.eval_local hm)
        (evalEntries_local hm attributes) (evalTerms_local hm bound) (evalTerms_local hm modifiers)
        (evalTerms_local hm children)
  | .text t | .comment t | .placeholder t | .content t =>
      (inside_lasting m).new (t.eval_local hm) fun hv => by simpa using hv
  | .inline name params hash | .modifier name params hash =>
      (inside_lasting m).call (name.eval_local hm) (evalTerms_local hm params)
        (evalEntries_local hm hash) fun _ _ _ _ h _ _ hc =>
          local_new h (inRegion_morphObject.2 ⟨hc, inRegion_nil⟩)
  | .attribute key value => (inside_lasting m).attribute (key.eval_local hm) (value.eval_local hm)
  | .block name params hash primary alternate =>
      (inside_lasting m).call (name.eval_local hm) (evalTerms_local hm params)
        (evalEntries_local hm hash)
        ((inside_lasting m).branches (primary.eval_local hm) (alternate.eval_local hm))

theorem evalTerms_local (hm : m.Local) : ∀ terms : List Term, (inside m).Lists terms terms
  | [] => fun _ _ _ _ h _ => local_pure h inRegion_nil
  | t :: rest => (inside_lasting m).terms (t.eval_local hm) (evalTerms_local hm rest)

theorem evalEntries_local (hm : m.Local) : ∀ terms : List (Term × Term), (inside m).Entries terms terms
  | [] => fun _ _ _ _ h _ _ he => local_pure h he
  | (k, t) :: rest =>
    (inside_lasting m).entries (k.eval_local hm) (t.eval_local hm) (evalEntries_local hm rest)

theorem evalFields_local (hm : m.Local) : ∀ terms : List (String × Term), (inside m).Fields terms terms
  | [] => fun _ _ _ _ h _ => local_pure h inRegion_nil
  | (k, t) :: rest => (inside_lasting m).fields k (t.eval_local hm) (evalFields_local hm rest)

end

theorem Step.run_local (hm : m.Local) (h : Alike r s s') (hregs : InRegion r regs) (step : Step) :
    (step.run m regs).Local r s s' := by
  refine Local.bind (evalTerms_local hm step.args h hregs) fun o hargs => ?_
  refine (step.callee.perform_local hm o.alike (hregs.mono o.grows) hargs).bind fun o' hv => ?_
  have hregs := hregs.mono (o.grows.trans o'.grows)
  split
  · exact local_pure o'.alike (inRegion_set hregs hv)
  · exact local_pure o'.alike hregs

end Script

namespace Routine

theorem parameters_local (h : Alike r s s') (kind : RoutineKind) (hargs : InRegion r args) :
    (parameters kind args).Local r s s' := by
  unfold parameters
  split <;> try simp only [inRegion_cons, inRegion_nil, and_true] at hargs
  · exact local_pure h (by simp [hargs])
  · exact local_pure h (by simp [hargs])
  · obtain ⟨hcontext, henvironment, hcontextual⟩ := hargs
    refine (Attribute.get_local h henvironment _).bind fun o hdocument => ?_
    refine (Attribute.get_local o.alike (henvironment.mono o.grows) _).bind fun o' hhooks => ?_
    have hgrow := o.grows.trans o'.grows
    exact local_pure o'.alike (by simp [hdocument.mono o'.grows, hhooks, hcontext.mono hgrow,
      henvironment.mono hgrow, hcontextual.mono hgrow])
  · exact local_fail h rfl

theorem run_local {m : Machine} (hm : m.Local) (h : Alike r s s') (routine : Routine)
    (hargs : InRegion r args) : (routine.run m args).Local r s s' := by
  refine (parameters_local h routine.kind hargs).bind fun o hregs => ?_
  have hsteps : ∀ (steps : List Step) {regs : Registers} {r : Region} {s s' : Store},
      Alike r s s' → InRegion r regs → (steps.foldlM (Step.run m) regs).Local r s s' := by
    intro steps
    induction steps with
    | nil => exact fun h hregs => local_pure h hregs
    | cons step rest ih =>
      intro regs r s s' h hregs
      rw [List.foldlM_cons]
      exact (step.run_local hm h hregs).bind fun o hregs => ih o.alike hregs
  refine (hsteps routine.steps o.alike hregs).bind fun o' hregs => ?_
  exact routine.result.eval_local hm o'.alike hregs

end Routine

/-! ### Calls -/

namespace Machine

theorem exhausted_local : exhausted.Local where
  recover h _ _ := local_fail h rfl
  call h _ _ _ _ := local_fail h rfl

theorem callDocument_local (h : Alike r s s') {id : ObjectId} (hid : id ∈ r) (name : String)
    (hargs : InRegion r args) : (callDocument id name args).Local r s s' := by
  unfold callDocument
  split
  · exact Document.call_local h hid _ hargs
  · exact local_fail h rfl

section Calls

variable {m : Machine} (hm : m.Local)
include hm

section Calls

variable (h : Alike r s s')

include h

theorem callFunction_local {f : Function} (hf : InRegion r f)
    (hargs : InRegion r args) : (callFunction m f args).Local r s s' := by
  cases f with
  | routine routine => exact routine.run_local hm h hargs
  | loader answer => exact local_pure h (inRegion_loader.1 hf)
  | refusal => exact local_fail h rfl

theorem callHooks_local (hv : InRegion r v) (name : String)
    (hargs : InRegion r args) : (callHooks m v name args).Local r s s' := by
  unfold callHooks
  split
  · exact Hook.callWhole_local hm h _ hargs
  · split_ifs
    · exact Container.item_local h hv (inRegion_cons.1 hargs).1
    · exact local_fail h rfl
  · exact local_fail h rfl

theorem callOfObject_local {id : ObjectId} (hid : id ∈ r) {o : Object}
    (hobj : s.object? id = some o) (name : String) (hargs : InRegion r args) :
    (callOfObject m id o name args).Local r s s' := by
  have ho := h.closed id hid o hobj
  have hv : InRegion r (Value.object id) := inRegion_object.2 hid
  unfold callOfObject
  split
  · exact Method.callList_local h hid (inRegion_listObject.1 ho) name hargs
  · exact Method.callTuple_local h hid (inRegion_tupleObject.1 ho) name hargs
  · exact Method.callMap_local h hid (inRegion_mapObject.1 ho) name hargs
  · exact callDocument_local h hid name hargs
  · exact callHooks_local hm h hv name hargs
  · exact callHooks_local hm h hv name hargs
  · split_ifs
    · exact hm.call h hv hargs
    · exact local_fail h rfl
  · exact Method.callPart_local h hv ho name hargs

omit hm in
/-- A comparison is told from other functions by its name and by the number of its arguments. -/
theorem compared?_local (name : String) {owner : Value} (ho : InRegion r owner)
    (hargs : InRegion r args) :
    (compared? s name owner args = none ∧ compared? s' name owner args = none) ∨
      ∃ x y, compared? s name owner args = some x ∧ compared? s' name owner args = some y ∧
        Relates Eq Same r s s' x y := by
  unfold compared?
  split
  · exact Method.compare?_local h ho (inRegion_cons.1 hargs).1 name
  · exact .inl ⟨rfl, rfl⟩

theorem callMethod_local {owner : Value} (ho : InRegion r owner) (name : String)
    (hargs : InRegion r args) : (callMethod m owner name args).Local r s s' := by
  refine local_store ?_
  split <;> try simp only [inRegion_cons, inRegion_nil, and_true] at hargs
  · exact (local_text h ho).bind fun o _ => local_pure o.alike (inRegion_str _)
  · rw [h.view ho]
    exact (local_written h _).bind fun o _ => local_pure o.alike (inRegion_str _)
  · exact (local_text h ho).bind fun o _ => local_pure o.alike (inRegion_str _)
  · exact Attribute.get_local h ho _
  · exact (Attribute.set_local h ho hargs.2 _).then_null
  · have hcall : (if name = "__call__" then m.call owner args
        else Act.fail .wrongType).Local r s s' := by
      split_ifs
      · exact hm.call h ho hargs
      · exact local_fail h rfl
    rcases compared?_local h name ho hargs with ⟨hx, hy⟩ | ⟨x, y, hx, hy, hxy⟩
    · rw [hx, hy]
      split
      · simp only [inRegion_cons] at hargs
        exact hm.call h (inRegion_method.2 hargs.1) hargs.2
      · contradiction
      · exact Method.callText_local h _ name hargs
      · have hid := inRegion_object.1 ho
        rw [h.object _ hid]
        split
        · next hobj => exact callOfObject_local hm h hid hobj name hargs
        · exact local_fail h rfl
      · split_ifs
        · exact local_pure h (inRegion_str _)
        · exact local_fail h rfl
      · exact hcall
      · exact hcall
      · exact hcall
      · exact Method.callNumber_local h ho name _
    · rw [hx, hy]
      cases owner with
      | typeObject typeName =>
        cases args with
        | nil => exact hxy
        | cons v rest =>
          simp only [inRegion_cons] at hargs
          exact hm.call h (inRegion_method.2 hargs.1) hargs.2
      | _ => exact hxy

theorem callWith_local {f : Value} (hf : InRegion r f) (hargs : InRegion r args) :
    (callWith m f args).Local r s s' := by
  refine local_store ?_
  cases f with
  | registrar =>
    simp only
    split
    · exact local_register h (inRegion_cons.1 hargs).1
    · exact local_fail h rfl
  | builtin name => exact Builtin.callFunction_local h name hargs
  | typeObject name => exact Builtin.construct_local h name hargs
  | method owner name => exact callMethod_local hm h (inRegion_method.1 hf) name hargs
  | object id =>
    have hid := inRegion_object.1 hf
    simp only [h.object id hid]
    split
    · next f added hobj =>
      exact callFunction_local hm h (inRegion_functionObject.1 (h.closed id hid _ hobj)).1 hargs
    · exact local_fail h rfl
  | _ => exact local_fail h rfl

end Calls

end Calls

/-- A machine cannot tell two stores apart that agree on a region, whatever it calls or recovers
inside of it. By induction on the depth to which calls are nested. -/
theorem ofDepth_local : ∀ depth, (ofDepth depth).Local
  | 0 => exhausted_local
  | depth + 1 =>
    have hm := ofDepth_local depth
    ⟨fun h _ hv => Hook.recover_local hm h hv, fun h _ _ hf hargs => callWith_local hm h hf hargs⟩

end Machine

/-- Stores that are alike let calls be nested equally deep. -/
theorem Alike.storeDepth (h : Alike r s s') : s'.depth = s.depth := by
  have hmap : s'.objects.toList.map Object.depth = s.objects.toList.map Object.depth := by
    refine List.ext_getElem? fun i => ?_
    simpa [Store.object?] using h.depth ⟨i⟩
  have hfold : ∀ s : Store, s.depth = (s.objects.toList.map Object.depth).foldl (· + ·) 4 := by
    intro s
    rw [Store.depth, List.foldl_map, Array.foldl_toList]
  rw [hfold, hfold, hmap]

theorem Store.machine_local (s : Store) (height : Nat) : (s.machine height).Local :=
  Machine.ofDepth_local _

end TemplateRecovery
