import TemplateRecovery.Proofs.Aliases
import TemplateRecovery.Proofs.Locality.Arguments
import TemplateRecovery.Proofs.Locality.Machine
import TemplateRecovery.Proofs.Taxonomy

/-!
# Exchanging parts of a template

Two declarative templates are recovered alike if their parts are: the checks, the builders, and the
statements one by one, with the templates that they refer to. The parts that differ lie outside of the
region that running code can reach, so that what is known of them at the start is known until the end.

* `Opcode.Statement.Related` are statements that are carried out alike, whatever they are read from.
* `Opcode.Parts` are the parts of two templates, and `Opcode.recoverWithin_relates` puts them together.
-/

namespace TemplateRecovery

open Act Container Store Artifact Binding

variable {v index v' : Value} {r' : Region} {t t' : Store} {items : List Value} {m : Machine}

namespace Opcode

variable {faults : Fault → Fault → Prop} {r : Region} {s s' : Store}

instance : Names StatementTag := ⟨fun _ => []⟩

/-! ### Carrying out a statement -/

theorem helperCall_relates (hrefl : ∀ e, faults e e) (h : Alike r s s') (tag : String)
    {name ps ps' hs hs' : Value} (hname : InRegion r name)
    (hps : RelatesLater faults Same r s s' (paramsOf ps) (paramsOf ps'))
    (hhs : RelatesLater faults Same r s s' (hashOf hs) (hashOf hs')) :
    Relates faults Same r s s' (helperCall tag name ps hs) (helperCall tag name ps' hs') := by
  refine relates_store ?_
  rw [h.raw hname]
  have hagree := (helperName_agree h.display tag (h.inRegion_raw hname)).mono
    (fun e e' (heq : e = e') => (heq ▸ hrefl e : faults e e'))
  refine hagree.lift_bind h fun n _ => ?_
  refine (hps.now h).bind_same fun o hitems => ?_
  refine (hhs o).bind_same fun o' hentries => ?_
  exact Local.relates (local_pure o'.alike (inRegion_call.2 ⟨inRegion_str n,
    inRegion_ownItems.2 (hitems.mono o'.grows), inRegion_ownEntries.2 hentries⟩)) hrefl

theorem expectSlot_local (h : Alike r s s') (tag : StatementTag) (hv : InRegion r v) :
    (expectSlot tag v).Local r s s' := by
  refine local_store ?_
  rw [h.asPlaceholder? hv]
  split
  · next id hid => exact local_pure h (inRegion_id.2 (h.of_asPlaceholder? hv hid))
  · exact local_failShape h hv _

theorem expectOwner_local (h : Alike r s s') (hv : InRegion r v) :
    (expectOwner v).Local r s s' := by
  refine (Attribute.find?_local h hv "parent").bind fun {parent r' t t'} o hparent => ?_
  refine local_store ?_
  cases parent with
  | none => exact local_fail o.alike rfl
  | some w =>
    have hw := inRegion_some.1 hparent
    rw [Option.bind_some, Option.bind_some, Document.element?_eq o.alike hw]
    split
    · next e he =>
      have he := Document.inRegion_element? o.alike hw he
      exact Local.bind (Document.expectModifiers_local o.alike he) fun o' _ =>
        local_pure o'.alike (he.mono o'.grows)
    · exact local_fail o.alike rfl

/-- Statements whose parts are read alike. -/
inductive Statement.Related (faults : Fault → Fault → Prop) (r : Region) (s s' : Store) :
    Statement → Statement → Prop
  | inline {name ps ps' hs hs' : Value} (hname : InRegion r name)
      (hps : RelatesLater faults Same r s s' (paramsOf ps) (paramsOf ps'))
      (hhs : RelatesLater faults Same r s s' (hashOf hs) (hashOf hs')) :
      Related faults r s s' (.inline name ps hs) (.inline name ps' hs')
  | attribute {value value' : Value}
      (hvalue : RelatesLater faults Same r s s' (paramOf value) (paramOf value')) :
      Related faults r s s' (.attribute value) (.attribute value')
  | element {name ps ps' hs hs' : Value} (hname : InRegion r name)
      (hps : RelatesLater faults Same r s s' (paramsOf ps) (paramsOf ps'))
      (hhs : RelatesLater faults Same r s s' (hashOf hs) (hashOf hs')) :
      Related faults r s s' (.element name ps hs) (.element name ps' hs')
  | content {v : Value} (hv : InRegion r v) : Related faults r s s' (.content v) (.content v)
  | block {name ps ps' hs hs' template inverse : Value} (hname : InRegion r name)
      (hps : RelatesLater faults Same r s s' (paramsOf ps) (paramsOf ps'))
      (hhs : RelatesLater faults Same r s s' (hashOf hs) (hashOf hs'))
      (htemplate : InRegion r template) (hinverse : InRegion r inverse) :
      Related faults r s s' (.block name ps hs template inverse) (.block name ps' hs' template inverse)

theorem Statement.Related.later {st st' : Statement} (h : st.Related faults r s s' st')
    (ho : Outcome r s s' r' t t' none) : st.Related faults r' t t' st' := by
  cases h with
  | inline hname hps hhs => exact .inline (hname.mono ho.grows) (hps.later ho) (hhs.later ho)
  | «attribute» hvalue => exact .attribute (hvalue.later ho)
  | element hname hps hhs => exact .element (hname.mono ho.grows) (hps.later ho) (hhs.later ho)
  | content hv => exact .content (hv.mono ho.grows)
  | block hname hps hhs htemplate hinverse =>
    exact .block (hname.mono ho.grows) (hps.later ho) (hhs.later ho) (htemplate.mono ho.grows)
      (hinverse.mono ho.grows)

variable {nested nested' : Value → Act Value} {templates templates' slot : Value}

/-- The branches that indices refer to are recovered alike. -/
def BranchesRelate (faults : Fault → Fault → Prop) (r : Region) (s s' : Store)
    (nested nested' : Value → Act Value) (templates templates' : Value) : Prop :=
  ∀ ⦃r' t t'⦄, Outcome r s s' r' t t' none → ∀ {index}, InRegion r' index →
    Relates faults Same r' t t' (branch nested templates index) (branch nested' templates' index)

theorem branch?_relates (hrefl : ∀ e, faults e e)
    (hbranch : BranchesRelate faults r s s' nested nested' templates templates')
    (ho : Outcome r s s' r' t t' none) (hindex : InRegion r' index) :
    Relates faults Same r' t t' (branch? nested templates index)
      (branch? nested' templates' index) := by
  cases index with
  | null => exact Local.relates (local_pure ho.alike inRegion_null) hrefl
  | _ => exact hbranch ho hindex

theorem Statement.apply_relates (hrefl : ∀ e, faults e e) {st st' : Statement}
    (hst : st.Related faults r s s' st') (h : Alike r s s') (hslot : InRegion r slot)
    (hbranch : BranchesRelate faults r s s' nested nested' templates templates') :
    Relates faults Same r s s' (st.apply nested slot templates)
      (st'.apply nested' slot templates') := by
  cases hst with
  | inline hname hps hhs =>
    refine (helperCall_relates hrefl h "inline" hname hps hhs).bind_same fun o hc => ?_
    refine Local.relates ?_ hrefl
    refine (expectSlot_local o.alike .inline (hslot.mono o.grows)).bind fun o' hid => ?_
    exact bind_local o'.alike (inRegion_id.1 hid) (inRegion_inline.2 (hc.mono o'.grows))
  | «attribute» hvalue =>
    refine relates_store ?_
    rw [h.asAttribute? hslot]
    split
    · exact Local.relates (local_failShape h hslot _) hrefl
    · next id hid =>
      refine (hvalue.now h).bind_same fun o he => Local.relates ?_ hrefl
      exact setValue_local o.alike (o.grows (h.of_asAttribute? hslot hid)) he
  | element hname hps hhs =>
    refine (Local.relates (expectOwner_local h hslot) hrefl).bind_same fun o he => ?_
    refine (helperCall_relates hrefl o.alike "element" (hname.mono o.grows) (hps.later o)
      (hhs.later o)).bind_same fun o' hc => Local.relates ?_ hrefl
    exact addModifier_local o'.alike (he.mono o'.grows) hc
  | content hv =>
    refine Local.relates ?_ hrefl
    refine (expectSlot_local h .content hslot).bind fun o hid => ?_
    exact bind_local o.alike (inRegion_id.1 hid) (inRegion_content.2 (hv.mono o.grows))
  | @block name ps ps' hs hs' template inverse hname hps hhs htemplate hinverse =>
    refine (Local.relates (expectSlot_local h .block hslot) hrefl).bind_same fun o hid => ?_
    refine (helperCall_relates hrefl o.alike "block" (hname.mono o.grows) (hps.later o)
      (hhs.later o)).bind_same fun o₁ hc => ?_
    have ho₁ := o.trans o₁
    refine (hbranch ho₁ (htemplate.mono ho₁.grows)).bind_same fun o₂ hp => ?_
    have ho₂ := ho₁.trans o₂
    refine (branch?_relates hrefl hbranch ho₂ (hinverse.mono ho₂.grows)).bind_same
      fun o₃ ha => Local.relates ?_ hrefl
    refine bind_local o₃.alike (o₃.grows (o₂.grows (o₁.grows (inRegion_id.1 hid)))) ?_
    exact inRegion_block.2 ⟨hp.mono o₃.grows, ha, hc.mono (o₂.grows.trans o₃.grows)⟩

/-! ### Statements and slots -/

/-- Two values are read as statements alike. -/
def Reads (faults : Fault → Fault → Prop) (r : Region) (s s' : Store) (v v' : Value) : Prop :=
  match statementOf s v, statementOf s' v' with
  | .ok st, .ok st' => st.Related faults r s s' st'
  | .error e, .error e' => faults e e' ∧ e.isOrdinary = true
  | _, _ => False

theorem noted_registered (s : Store) (v : Value) :
    (noted s v).tag = s.tag ∧ (noted s v).registered = s.registered ∧
      (noted s v).fillings = s.fillings := by
  unfold noted
  split <;> exact ⟨rfl, rfl, rfl⟩

/-- Noting a statement changes nothing that running code could see. -/
theorem outcome_noted (h : Alike r s s') (v v' : Value) {ending : Option Fault}
    (hending : ∀ t, Fills s t → Records s t ending) :
    Outcome r s s' r (noted s v) (noted s' v') ending := by
  obtain ⟨htag, hreg, hfillings⟩ := noted_registered s v
  obtain ⟨htag', hreg', _⟩ := noted_registered s' v'
  exact outcome_of_eq h (noted_objects s v) (noted_objects s' v') (by rw [htag, htag', h.tag])
    (by rw [hreg, hreg', h.registered]) (hending _ (fills_of_eq hreg hfillings))

theorem interpret_relates (hrefl : ∀ e, faults e e) (hv : Reads faults r s s' v v')
    (h : Alike r s s') (hslot : InRegion r slot)
    (hbranch : BranchesRelate faults r s s' nested nested' templates templates') :
    Relates faults Same r s s' (interpret nested slot v templates)
      (interpret nested' slot v' templates') := by
  unfold Reads at hv
  cases hst : statementOf s v with
  | error e =>
    cases hst' : statementOf s' v' with
    | ok st' => rw [hst, hst'] at hv; exact hv.elim
    | error e' =>
      rw [hst, hst'] at hv
      refine relates_of_error ?_ ?_ hv.1
        (outcome_noted h v v' fun _ => (records_of_isOrdinary hv.2).2)
      · rw [interpret_apply, hst]
      · rw [interpret_apply, hst']
  | ok st =>
    cases hst' : statementOf s' v' with
    | error e' => rw [hst, hst'] at hv; exact hv.elim
    | ok st' =>
      rw [hst, hst'] at hv
      have ho : Outcome r s s' r (noted s v) (noted s' v') none := outcome_noted h v v' fun _ => id
      have happly := Statement.apply_relates hrefl (hv.later ho) ho.alike hslot
        fun _ _ _ ho' => hbranch (ho.trans ho')
      rcases happly.cases with
        ⟨a, t, b, t', r', hx, hy, ho', hab⟩ | ⟨e, t, e', t', r', hx, hy, he, ho'⟩
      · exact relates_of_ok (by rw [interpret_apply, hst, ← hx]) (by rw [interpret_apply, hst', ← hy])
          (ho.trans ho') hab
      · exact relates_of_error (by rw [interpret_apply, hst, ← hx])
          (by rw [interpret_apply, hst', ← hy]) he (ho.trans ho')

/-- Two values are read as statements alike in all stores that two runs can go on to. -/
def ReadsLater (faults : Fault → Fault → Prop) (r : Region) (s s' : Store) (v v' : Value) : Prop :=
  ∀ ⦃r' t t'⦄, Outcome r s s' r' t t' none → Reads faults r' t t' v v'

theorem ReadsLater.later (h : ReadsLater faults r s s' v v') (ho : Outcome r s s' r' t t' none) :
    ReadsLater faults r' t t' v v' :=
  fun _ _ _ ho' => h (ho.trans ho')

/-- The statements of two templates are found alike, and each is read alike. -/
abbrev StatementsRelate (faults : Fault → Fault → Prop) (r : Region) (s s' : Store) (v v' : Value) :
    Prop :=
  Relates faults (fun r t t' => List.Forall₂ (ReadsLater faults r t t')) r s s' (statementsOf v)
    (statementsOf v')

/-- Statements one after the other, each at its slot: by induction on the statements. -/
theorem bindAll_relates (hrefl : ∀ e, faults e e) {sts sts' slots : List Value}
    (hsts : List.Forall₂ (ReadsLater faults r s s') sts sts') (h : Alike r s s')
    (hslots : InRegion r slots)
    (hbranch : BranchesRelate faults r s s' nested nested' templates templates') :
    Relates faults Same r s s' (bindAll nested templates (slots.zip sts))
      (bindAll nested' templates' (slots.zip sts')) := by
  induction sts generalizing r s s' sts' slots with
  | nil =>
    cases hsts
    rw [List.zip_nil_right]
    exact Local.relates (local_pure h (inRegion_unit _)) hrefl
  | cons v rest ih =>
    cases hsts with
    | cons hv hrest =>
      cases slots with
      | nil => exact Local.relates (local_pure h (inRegion_unit _)) hrefl
      | cons slot slots =>
        rw [inRegion_cons] at hslots
        rw [List.zip_cons_cons, List.zip_cons_cons]
        refine (interpret_relates hrefl (hv h.outcome_refl) h hslots.1 hbranch).bind_same
          fun o _ => ?_
        exact ih (hrest.imp fun _ _ hread => hread.later o) o.alike
          (hslots.2.mono o.grows) fun _ _ _ ho => hbranch (o.trans ho)

/-! ### Templates that statements refer to -/

/-- An item of an array is read at any position it has, unless the position is too large. -/
theorem item_of_position (h : s.array? v = some items) {p : Nat} (hp : p < items.length) :
    item v (.int p) s =
      if indexLimit ≤ p then .error .wideIndex s else .ok (items[p]?.getD .null) s := by
  have hposition : ∀ missing, position items.length missing (.int p) s =
      if indexLimit ≤ p then .error .wideIndex s else .ok p s := by
    intro missing
    have hnat : position? items.length p = some p := by
      have hj : (if (p : Int) < 0 then (p : Int) + items.length else p) = p := if_neg (by omega)
      simp only [position?, hj, Int.toNat_natCast]
      rw [if_pos ⟨by omega, by omega⟩]
    rw [position]
    by_cases hlimit : indexLimit ≤ p
    · simp only [Value.index?, if_pos (Or.inr hlimit : _ ∨ _), if_pos hlimit]
      rfl
    · have hrange : ¬((p : Int) < -indexLimit ∨ indexLimit ≤ p) := by
        unfold indexLimit at hlimit ⊢
        omega
      simp only [Value.index?, if_neg hrange, if_neg hlimit, hnat]
      rfl
  obtain ⟨id, rfl, ho | ho⟩ := array?_eq_some h
  all_goals
    rw [item, Act.bind_store, asObject?_of_object? ho]
    by_cases hlimit : indexLimit ≤ p
    · rw [if_pos hlimit]
      exact Act.bind_of_error ((hposition _).trans (if_pos hlimit))
    · rw [if_neg hlimit]
      exact Act.bind_of_ok ((hposition _).trans (if_neg hlimit))

theorem childTemplate_apply (h : s.array? v = some items) (index : Value) :
    childTemplate v index s = match templatePosition? items.length index with
      | some p =>
        if indexLimit ≤ p then .error .wideIndex s else .ok (items[p]?.getD .null) s
      | none =>
        .error (.ofShape (.templateIndex StatementTag.block.name (s.view index) items.length)) s := by
  refine (Act.bind_of_ok (length_of_array? h)).trans ?_
  cases hposition : templatePosition? items.length index with
  | none => rfl
  | some p => exact item_of_position h (templatePosition?_lt hposition)

/-- Arrays of templates that belong together item by item lead to templates that do. -/
theorem childTemplate_relates (hrefl : ∀ e, faults e e) (h : Alike r s s') {items' : List Value}
    {R : Value → Value → Prop} (harray : s.array? templates = some items)
    (harray' : s'.array? templates' = some items') (hitems : List.Forall₂ R items items')
    (hindex : InRegion r index) :
    Relates faults (fun _ _ _ => R) r s s' (childTemplate templates index)
      (childTemplate templates' index) := by
  have hlength := hitems.length_eq
  have hx := childTemplate_apply harray index
  have hy := childTemplate_apply harray' index
  rw [← hlength, h.view hindex] at hy
  cases hposition : templatePosition? items.length index with
  | none =>
    rw [hposition] at hx hy
    exact relates_of_error hx hy (hrefl _)
      (h.outcome ((records_of_isOrdinary (Fault.isOrdinary_ofShape _)).2 (fills_of_eq rfl rfl)))
  | some p =>
    rw [hposition] at hx hy
    simp only at hx hy
    split_ifs at hx hy
    · exact relates_of_error hx hy (hrefl _) (h.outcome (fills_of_eq rfl rfl))
    · refine relates_of_ok hx hy h.outcome_refl ?_
      have hp := templatePosition?_lt hposition
      rw [List.getElem?_eq_getElem hp, List.getElem?_eq_getElem (hlength ▸ hp)]
      exact hitems.get hp (hlength ▸ hp)

/-! ### Whole templates -/

/-- One value inside the region, or two values that belong together. -/
def Matched (R : Value → Value → Prop) (r : Region) (v v' : Value) : Prop :=
  v' = v ∧ InRegion r v ∨ R v v'

theorem Matched.mono {R : Value → Value → Prop} (h : Matched R r v v') (hr : r ⊆ r') :
    Matched R r' v v' :=
  h.imp_left fun ⟨heq, hv⟩ => ⟨heq, hv.mono hr⟩

/-- The templates that indices refer to belong together. -/
def ChildrenMatch (faults : Fault → Fault → Prop) (R : Value → Value → Prop) (r : Region)
    (s s' : Store) (templates templates' : Value) : Prop :=
  ∀ ⦃r' t t'⦄, Outcome r s s' r' t t' none → ∀ {index}, InRegion r' index →
    Relates faults (fun r _ _ => Matched R r) r' t t' (childTemplate templates index)
      (childTemplate templates' index)

/-- The statements of a template, and the array of templates that they refer to. -/
def readLists (template : Value) : Act (List Value × Value) := do
  let statements ← member "statements" template
  let templates ← member "templates" template
  let statements ← statementsOf statements
  return (statements, templates)

def buildSlots (m : Machine) (template : Value) (args : List Value) : Act (List Value) := do
  let returned ← callBuilder m template "buildRenderNodes" args
  expectSlots returned

theorem recoverWithin_parts (m : Machine) (depth : Nat) (template : Value) :
    recoverWithin m (depth + 1) template = (do
      validate template
      let document ← Act.new (.document .null)
      let fragment ← callBuilder m template "buildFragment" [document]
      expectFragment fragment
      let slots ← buildSlots m template [document, fragment, .null]
      let lists ← readLists template
      bindSlots (recoverWithin m depth) slots lists.1 lists.2
      return fragment) := by
  simp only [recoverWithin, buildSlots, readLists, bind_assoc, pure_bind]

/-- **The parts of two templates belong together**, in all stores that two runs can go on to. -/
structure Parts (faults : Fault → Fault → Prop) (m : Machine) (R : Value → Value → Prop) (r : Region)
    (s s' : Store) (v v' : Value) : Prop where
  valid : RelatesLater faults Same r s s' (validate v) (validate v')
  fragment : ∀ ⦃r' t t'⦄, Outcome r s s' r' t t' none → ∀ {args}, InRegion r' args →
    Relates faults Same r' t t' (callBuilder m v "buildFragment" args)
      (callBuilder m v' "buildFragment" args)
  slots : ∀ ⦃r' t t'⦄, Outcome r s s' r' t t' none → ∀ {args}, InRegion r' args →
    Relates faults Same r' t t' (buildSlots m v args) (buildSlots m v' args)
  lists : RelatesLater faults (fun r t t' p p' => List.Forall₂ (ReadsLater faults r t t') p.1 p'.1 ∧
    ChildrenMatch faults R r t t' p.2 p'.2) r s s' (readLists v) (readLists v')

theorem Parts.later {R : Value → Value → Prop} (h : Parts faults m R r s s' v v')
    (ho : Outcome r s s' r' t t' none) : Parts faults m R r' t t' v v' where
  valid := h.valid.later ho
  fragment _ _ _ ho' := h.fragment (ho.trans ho')
  slots _ _ _ ho' := h.slots (ho.trans ho')
  lists := h.lists.later ho

theorem expectFragment_local (h : Alike r s s') (hv : InRegion r v) :
    (expectFragment v).Local r s s' := by
  refine local_store ?_
  rw [h.asNode? hv]
  split
  · exact local_pure h (inRegion_unit _)
  · exact local_failShape h hv _

theorem expectSlots_local (h : Alike r s s') (hv : InRegion r v) :
    (expectSlots v).Local r s s' := by
  refine local_store ?_
  rw [h.array? hv]
  split
  · next items hitems => exact local_pure h (h.of_array? hv hitems)
  · exact local_failShape h hv _

/-- As many statements as there are slots are carried out alike. -/
theorem bindSlots_relates (hrefl : ∀ e, faults e e) {sts sts' slots : List Value}
    (hsts : List.Forall₂ (ReadsLater faults r s s') sts sts') (h : Alike r s s')
    (hslots : InRegion r slots)
    (hbranch : BranchesRelate faults r s s' nested nested' templates templates') :
    Relates faults Same r s s' (bindSlots nested slots sts templates)
      (bindSlots nested' slots sts' templates') := by
  unfold bindSlots
  rw [← hsts.length_eq]
  split_ifs
  · exact bindAll_relates hrefl hsts h hslots hbranch
  · exact Local.relates (local_fail h rfl) hrefl

section Whole

variable {m : Machine} {R : Value → Value → Prop} {v v' : Value}

/-- Templates whose parts belong together are recovered alike if nested ones are. -/
theorem Parts.relates (hparts : Parts faults m R r s s' v v') (hrefl : ∀ e, faults e e)
    (h : Alike r s s') {depth : Nat}
    (hnested : ∀ ⦃r' t t'⦄, Outcome r s s' r' t t' none → ∀ {w w'}, Matched R r' w w' →
      Relates faults Same r' t t' (recoverWithin m depth w) (recoverWithin m depth w')) :
    Relates faults Same r s s' (recoverWithin m (depth + 1) v) (recoverWithin m (depth + 1) v') := by
  rw [recoverWithin_parts, recoverWithin_parts]
  refine (hparts.valid.now h).bind_same fun o₁ _ => ?_
  have hnew := local_new o₁.alike (inRegion_documentObject.2 inRegion_null)
  refine (Local.relates hnew hrefl).bind_same fun {document _ _ _} o₂ hdocument => ?_
  have ho₂ := o₁.trans o₂
  refine (hparts.fragment ho₂ (by simp [hdocument])).bind_same fun {fragment _ _ _} o₃ hfragment => ?_
  have ho₃ := ho₂.trans o₃
  refine (Local.relates (expectFragment_local o₃.alike hfragment) hrefl).bind_same fun {_ r₄ _ _} o₄ _ => ?_
  have ho₄ := ho₃.trans o₄
  have hargs : InRegion r₄ [document, fragment, .null] := by
    simp [hdocument.mono (o₃.grows.trans o₄.grows), hfragment.mono o₄.grows]
  refine (hparts.slots ho₄ hargs).bind_same fun {slots _ _ _} o₅ hslots => ?_
  have ho₅ := ho₄.trans o₅
  refine (hparts.lists ho₅).bind fun {lists lists' _ _ _} o₆ hlists => ?_
  have ho₆ := ho₅.trans o₆
  refine (bindSlots_relates hrefl hlists.1 o₆.alike (hslots.mono o₆.grows) ?_).bind_same
    fun o₇ _ => ?_
  · intro r' t t' ho' index hindex
    refine (hlists.2 ho' hindex).bind fun o hchild => ?_
    exact hnested (ho₆.trans (ho'.trans o)) hchild
  · refine Local.relates (local_pure o₇.alike ?_) hrefl
    exact hfragment.mono (o₄.grows.trans (o₅.grows.trans (o₆.grows.trans o₇.grows)))

end Whole

/-! ### A template inside the region -/

section Inside

variable (hrefl : ∀ e, faults e e)

include hrefl

theorem paramOf_later (hv : InRegion r v) :
    RelatesLater faults Same r s s' (paramOf v) (paramOf v) :=
  fun _ _ _ o => Local.relates (paramOf_local o.alike (hv.mono o.grows)) hrefl

theorem paramsOf_later (hv : InRegion r v) :
    RelatesLater faults Same r s s' (paramsOf v) (paramsOf v) :=
  fun _ _ _ o => Local.relates (paramsOf_local o.alike (hv.mono o.grows)) hrefl

theorem hashOf_later (hv : InRegion r v) : RelatesLater faults Same r s s' (hashOf v) (hashOf v) :=
  fun _ _ _ o => Local.relates (hashOf_local o.alike (hv.mono o.grows)) hrefl

/-- A statement whose positional arguments are inside the region. -/
theorem Statement.related_of_args {tag : StatementTag} {args : List Value} {st : Statement}
    (hargs : InRegion r (args.take tag.arity)) {d : Display}
    (h : Statement.ofArgs d tag args = .ok st) : st.Related faults r s s' st := by
  unfold Statement.ofArgs at h
  split at h
  · cases h
    simp only [StatementTag.arity, List.take_succ_cons, inRegion_cons] at hargs
    exact .inline hargs.1 (paramsOf_later hrefl hargs.2.1) (hashOf_later hrefl hargs.2.2.1)
  · cases h
    simp only [StatementTag.arity, List.take_succ_cons, inRegion_cons] at hargs
    exact .attribute (paramOf_later hrefl hargs.2.1)
  · cases h
    simp only [StatementTag.arity, List.take_succ_cons, inRegion_cons] at hargs
    exact .element hargs.1 (paramsOf_later hrefl hargs.2.1) (hashOf_later hrefl hargs.2.2.1)
  · cases h
    simp only [StatementTag.arity, List.take_succ_cons, inRegion_cons] at hargs
    exact .content hargs.1
  · cases h
    simp only [StatementTag.arity, List.take_succ_cons, inRegion_cons] at hargs
    exact .block hargs.1 (paramsOf_later hrefl hargs.2.1) (hashOf_later hrefl hargs.2.2.1)
      hargs.2.2.2.1 hargs.2.2.2.2.1
  · cases h

omit hrefl in
/-- How values are shown matters only when there are too few arguments. -/
theorem Statement.ofArgs_cases (d d' : Display) (tag : StatementTag) (args : List Value) :
    (∃ st, Statement.ofArgs d tag args = .ok st ∧ Statement.ofArgs d' tag args = .ok st) ∨
      ∀ e : Display, Statement.ofArgs e tag args =
        .error (.ofShape (.arity tag.name tag.arity none (args.map e.view))) := by
  cases hof : Statement.ofArgs d tag args with
  | ok st =>
    refine .inl ⟨st, rfl, ?_⟩
    unfold Statement.ofArgs at hof ⊢
    split at hof
    · exact hof
    · exact hof
    · exact hof
    · exact hof
    · exact hof
    · cases hof
  | error fault =>
    refine .inr fun e => ?_
    unfold Statement.ofArgs at hof ⊢
    split at hof
    · cases hof
    · cases hof
    · cases hof
    · cases hof
    · cases hof
    · rfl

omit hrefl in
theorem splitStatement_agree (h : Alike r s s') (hv : InRegion r v) :
    Agree Eq r (splitStatement s v) (splitStatement s' v) := by
  unfold splitStatement
  rw [h.array? hv, h.view hv]
  cases hitems : s.array? v with
  | none => exact agree_error rfl rfl
  | some items =>
    cases items with
    | nil => exact agree_error rfl rfl
    | cons tag args =>
      obtain ⟨htag, hargs⟩ := inRegion_cons.1 (h.of_array? hv hitems)
      simp only
      split
      · exact .ok (inRegion_prod.2 ⟨inRegion_of_ids rfl, hargs⟩)
      · rw [h.raw htag]
        exact unknownTag_alike h.display .statement (all_of_inRegion (h.inRegion_raw htag))

/-- Statements are read alike when their tags and arguments are found alike. -/
theorem reads_of_split (h : Alike r s s')
    (hsplit : Agree faults r (splitStatement s v) (splitStatement s' v')) :
    Reads faults r s s' v v' := by
  unfold Reads statementOf
  rcases EndAlike.cases hsplit with ⟨⟨tag, args⟩, hx, hy, hfound⟩ | ⟨e, e', hx, hy, hfault⟩
  · rw [hx, hy]
    have hargs : InRegion r args := (inRegion_prod.1 hfound).2
    have hviews : args.map s'.display.view = args.map s.display.view :=
      List.map_congr_left fun a ha => h.view (inRegion_list.1 hargs a ha)
    change match Statement.ofArgs s.display tag args, Statement.ofArgs s'.display tag args with
      | .ok st, .ok st' => st.Related faults r s s' st'
      | .error e, .error e' => faults e e' ∧ e.isOrdinary = true
      | _, _ => False
    rcases Statement.ofArgs_cases s.display s'.display tag args with ⟨st, hst, hst'⟩ | herror
    · rw [hst, hst']
      exact Statement.related_of_args hrefl (hargs.subset (List.take_subset _ _)) hst
    · rw [herror, herror, hviews]
      exact ⟨hrefl _, Fault.isOrdinary_ofShape _⟩
  · rw [hx, hy]
    exact hfault

/-- A value inside the region is read as a statement alike. -/
theorem readsLater_of_region (hv : InRegion r v) : ReadsLater faults r s s' v v :=
  fun _ _ _ o => reads_of_split hrefl o.alike
    (Agree.mono (splitStatement_agree o.alike (hv.mono o.grows)) fun e _ heq => heq ▸ hrefl e)

/-- The statements of an array inside the region are read alike. -/
theorem statementsRelate_of_region (h : Alike r s s') (hv : InRegion r v) :
    StatementsRelate faults r s s' v v := by
  have hlocal : (statementsOf v).Local r s s' := (length_local h hv).bind fun o _ =>
    items_local o.alike (hv.mono o.grows)
  refine Relates.mono (Local.relates hlocal hrefl) (fun _ _ he => he) ?_
  rintro items _ r' t t' o ⟨rfl, hitems⟩
  exact List.forall₂_same.2 fun w hw => readsLater_of_region hrefl (inRegion_list.1 hitems w hw)

end Inside

/-! ### The members of a template inside the region -/

/-- The members of a value inside the region are the same in stores that are alike. -/
theorem memberOf_alike {name : String} (h : Alike r s s') (hv : InRegion r v)
    (hname : name ∉ Field.containerNames) :
    memberOf s' name v = memberOf s name v ∧ InRegion r (memberOf s name v) := by
  have hx := member_apply hname v s
  have hy := member_apply hname v s'
  rcases (member_local h hv name).cases with
    ⟨a, t, b, t', r', hok, hok', o, hab, ha⟩ | ⟨e, t, e', t', r', herror, -⟩
  · obtain ⟨rfl, rfl⟩ := EStateM.Result.ok.inj (hx.symm.trans hok)
    obtain ⟨rfl, rfl⟩ := EStateM.Result.ok.inj (hy.symm.trans hok')
    -- Nothing was made, so the region has not grown.
    have hsame : r' ⊆ r := by
      intro id hid
      rcases o.fresh id hid with hid | ⟨hle, hlt⟩
      · exact hid
      · exact absurd hlt (Nat.not_lt.2 hle)
    exact ⟨hab, ha.mono hsame⟩
  · cases hx.symm.trans herror

/-- Templates with the same members, whose arrays may be different ones, pass the same checks. -/
theorem checks_eq (h : Alike r s s') (htruthy : s'.truthy v' = s.truthy v)
    (hshared : ∀ name ∈ ["meta", "buildFragment", "buildRenderNodes"],
      memberOf s' name v' = memberOf s name v ∧ InRegion r (memberOf s name v))
    (harrays : ∀ name ∈ ["statements", "templates"], (s'.array? (memberOf s' name v')).isSome =
      (s.array? (memberOf s name v)).isSome) : checks s' v' = checks s v := by
  simp only [List.forall_mem_cons, List.not_mem_nil, false_implies, implies_true,
    and_true] at hshared harrays
  obtain ⟨⟨hmeta, hdata⟩, ⟨hfragment, hbuilder⟩, hslots, hbuilder'⟩ := hshared
  obtain ⟨hrevision, hregion⟩ := memberOf_alike h hdata (by decide : "revision" ∉ _)
  have hproblem : revisionProblem s' (memberOf s "revision" (memberOf s "meta" v)) =
      revisionProblem s (memberOf s "revision" (memberOf s "meta" v)) := by
    unfold revisionProblem
    rw [h.truthy hregion]
    split_ifs
    · rfl
    · split
      · rfl
      · rw [h.view hregion]
  simp only [checks, htruthy, hmeta, h.truthy hdata, hrevision, hproblem, hfragment,
    h.isCallable hbuilder, hslots, h.isCallable hbuilder', harrays.1, harrays.2]

theorem validate_relates (h : Alike r s s') (hchecks : checks s' v' = checks s v) :
    Relates Eq Same r s s' (validate v) (validate v') := by
  have hx := validate_apply v s
  have hy := validate_apply v' s'
  rw [hchecks] at hy
  unfold report at hx hy
  cases hfound : (checks s v).find? fun check => !check.1 with
  | none =>
    rw [hfound] at hx hy
    exact relates_of_ok hx hy h.outcome_refl ⟨rfl, inRegion_unit _⟩
  | some check =>
    rw [hfound] at hx hy
    exact relates_of_error hx hy rfl (h.outcome (fills_of_eq rfl rfl))

theorem validate_local (h : Alike r s s') (hv : InRegion r v) : (validate v).Local r s s' := by
  refine validate_relates h (checks_eq h (h.truthy hv) (fun name hname => ?_) fun name hname => ?_)
  · exact memberOf_alike h hv ((by decide : ∀ name ∈ _, name ∉ Field.containerNames) name hname)
  · obtain ⟨hmember, hregion⟩ :=
      memberOf_alike h hv ((by decide : ∀ name ∈ _, name ∉ Field.containerNames) name hname)
    rw [hmember, h.array? hregion]

theorem callBuilder_local (hm : m.Local) (h : Alike r s s') (hv : InRegion r v) (name : String)
    {args : List Value} (hargs : InRegion r args) : (callBuilder m v name args).Local r s s' :=
  (member_local h hv name).bind fun o hbuilder =>
    hm.call o.alike hbuilder (hargs.mono o.grows)

theorem childTemplate_local (h : Alike r s s') (htemplates : InRegion r templates)
    (hindex : InRegion r index) : (childTemplate templates index).Local r s s' := by
  refine (length_local h htemplates).bind fun o _ => ?_
  split
  · exact item_local o.alike (htemplates.mono o.grows) (inRegion_intValue _)
  · exact local_failShape o.alike (hindex.mono o.grows) _

theorem childrenMatch_of_region (hrefl : ∀ e, faults e e) (R : Value → Value → Prop)
    (htemplates : InRegion r templates) : ChildrenMatch faults R r s s' templates templates := by
  intro r' t t' o index hindex
  refine Relates.mono (Local.relates (childTemplate_local o.alike (htemplates.mono o.grows) hindex)
    hrefl) (fun _ _ he => he) ?_
  exact fun _ _ _ _ _ _ hsame => .inl hsame

/-- **A template inside the region is made of parts that belong together.** -/
theorem parts_of_region (hrefl : ∀ e, faults e e) (hm : m.Local) (R : Value → Value → Prop)
    (hv : InRegion r v) : Parts faults m R r s s' v v where
  valid _ _ _ o := Local.relates (validate_local o.alike (hv.mono o.grows)) hrefl
  fragment _ _ _ o _ hargs :=
    Local.relates (callBuilder_local hm o.alike (hv.mono o.grows) _ hargs) hrefl
  slots _ _ _ o _ hargs := by
    refine Local.relates ?_ hrefl
    exact (callBuilder_local hm o.alike (hv.mono o.grows) _ hargs).bind fun o' hreturned =>
      expectSlots_local o'.alike hreturned
  lists _ _ _ o := by
    have hv' := hv.mono o.grows
    refine (Local.relates (member_local o.alike hv' _) hrefl).bind_same
      fun o₁ hstatements => ?_
    refine (Local.relates (member_local o₁.alike (hv'.mono o₁.grows) _) hrefl).bind_same
      fun o₂ htemplates => ?_
    refine (statementsRelate_of_region hrefl o₂.alike (hstatements.mono o₂.grows)).bind
      fun o₃ hlists => ?_
    exact relates_of_ok rfl rfl o₃.alike.outcome_refl
      ⟨hlists, childrenMatch_of_region hrefl R (htemplates.mono o₃.grows)⟩

/-- **Templates that belong together are recovered alike**, by induction on how deep blocks are
nested: what belongs together is made of parts that belong together. -/
theorem recoverWithin_relates (hrefl : ∀ e, faults e e) (hm : m.Local) {R : Value → Value → Prop}
    (hR : ∀ {v v'}, R v v' → Parts faults m R r s s' v v') (depth : Nat) :
    ∀ ⦃r' t t'⦄, Outcome r s s' r' t t' none → ∀ {v v'}, Matched R r' v v' →
      Relates faults Same r' t t' (recoverWithin m depth v) (recoverWithin m depth v') := by
  induction depth with
  | zero => exact fun _ _ _ o _ _ _ => Local.relates (local_fail o.alike rfl) hrefl
  | succ depth ih =>
    intro r' t t' o v v' hmatched
    have hparts : Parts faults m R r' t t' v v' := by
      rcases hmatched with ⟨rfl, hv⟩ | hR'
      · exact parts_of_region hrefl hm R hv
      · exact (hR hR').later o
    exact hparts.relates hrefl o.alike fun _ _ _ o' _ _ hw => ih (o.trans o') hw

/-! ### Objects apart from the region -/

section Apart

variable {t t' : Store} {r' : Region} {v v' : Value}

/-- A value that is an object outside of a region. -/
def Apart (r : Region) (s : Store) (v : Value) : Prop :=
  ∃ id o, v = .object id ∧ id ∉ r ∧ s.object? id = some o

def SameObject (s t : Store) (v : Value) : Prop := ∃ id, v = .object id ∧ t.object? id = s.object? id

/-- What is apart from the region is left as it was by the first run. -/
theorem Apart.kept (h : Apart r s v) (o : Outcome r s s' r' t t' none) : SameObject s t v := by
  obtain ⟨id, obj, rfl, hid, hobj⟩ := h
  exact ⟨id, rfl, o.kept id hid (index_lt_of_object? hobj)⟩

/-- What is apart from the region is left as it was by the second run. -/
theorem Apart.kept' (h : Apart r s' v') (halike : Alike r s s') (o : Outcome r s s' r' t t' none) :
    SameObject s' t' v' := by
  obtain ⟨id, obj, rfl, hid, hobj⟩ := h
  exact ⟨id, rfl, o.kept' id hid (halike.size ▸ index_lt_of_object? hobj)⟩

theorem Apart.later (h : Apart r s v) (o : Outcome r s s' r' t t' none) : Apart r' t v := by
  obtain ⟨id, obj, rfl, hid, hobj⟩ := h
  have hlt := index_lt_of_object? hobj
  exact ⟨id, obj, rfl, o.not_mem hid hlt, (o.kept id hid hlt).trans hobj⟩

theorem Apart.later' (h : Apart r s' v') (halike : Alike r s s') (o : Outcome r s s' r' t t' none) :
    Apart r' t' v' := by
  obtain ⟨id, obj, rfl, hid, hobj⟩ := h
  have hlt : id.index < s.objects.size := halike.size ▸ index_lt_of_object? hobj
  exact ⟨id, obj, rfl, o.not_mem hid hlt, (o.kept' id hid hlt).trans hobj⟩

section Same

variable (h : SameObject s t v)

include h

theorem SameObject.asObject? : t.asObject? v = s.asObject? v := by
  obtain ⟨id, rfl, hobject⟩ := h
  rw [asObject?, asObject?, hobject]

theorem SameObject.array? : t.array? v = s.array? v := by
  rw [Store.array?, Store.array?, h.asObject?]

theorem SameObject.truthy : t.truthy v = s.truthy v := by
  obtain ⟨id, rfl, hobject⟩ := h
  rw [truthy, truthy, hobject]

theorem SameObject.plain? (name : String) :
    Attribute.plain? t v name = Attribute.plain? s v name := by
  have htype : t.typeName v = s.typeName v := by
    obtain ⟨id, rfl, hobject⟩ := h
    rw [typeName, typeName, hobject]
  unfold Attribute.plain? Attribute.typeMember? Attribute.hasMethod
  rw [h.asObject?, htype]

theorem SameObject.memberOf (name : String) : memberOf t name v = memberOf s name v := by
  have hentries : t.entries? v = s.entries? v := by
    rw [entries?, entries?, h.asObject?]
  have hplain := h.plain? name
  obtain ⟨id, rfl, -⟩ := h
  unfold Opcode.memberOf memberOf?
  rw [hentries]
  cases s.entries? (.object id) with
  | none => exact congrArg (·.getD .null) hplain
  | some entries => exact congrArg (·.getD .null) (findName?_eq t s name entries)

end Same

end Apart

/-! ### Arrays apart from the region -/

/-- One value, or two arrays whose items belong together one by one. -/
inductive SameItems (r : Region) (s : Store) (P : Value → Value → Prop) : Value → Value → Prop
  | same {v : Value} (hv : InRegion r v) : SameItems r s P v v
  | arrays {v v' : Value} {items items' : List Value} (hv : Apart r s v) (hv' : Apart r s v')
      (hitems : s.array? v = some items) (hitems' : s.array? v' = some items')
      (hmatch : List.Forall₂ P items items') : SameItems r s P v v'

section Items

variable {t t' : Store} {r' : Region} {v v' : Value} {P R : Value → Value → Prop}

theorem SameItems.array? (h : SameItems r s P v v') (halike : Alike r s s)
    (o : Outcome r s s r' t t' none) : (t'.array? v').isSome = (t.array? v).isSome := by
  cases h with
  | same hv => rw [o.alike.array? (hv.mono o.grows)]
  | arrays hv hv' hitems hitems' _ =>
    rw [(hv.kept o).array?, (hv'.kept' halike o).array?, hitems, hitems']
    rfl

/-- Indices lead from arrays whose items belong together to templates that do. -/
theorem SameItems.childrenMatch (hrefl : ∀ e, faults e e) (h : SameItems r s (Matched R r) v v')
    (halike : Alike r s s) (o : Outcome r s s r' t t' none) :
    ChildrenMatch faults R r' t t' v v' := by
  cases h with
  | same hv => exact childrenMatch_of_region hrefl R (hv.mono o.grows)
  | arrays hv hv' hitems hitems' hmatch =>
    intro r₁ u u' o' index hindex
    have ho := o.trans o'
    refine Relates.mono (childTemplate_relates hrefl o'.alike ((hv.kept ho).array?.trans hitems)
      ((hv'.kept' halike ho).array?.trans hitems') hmatch hindex) (fun _ _ he => he) ?_
    exact fun _ _ _ _ _ o₂ hchild => hchild.mono (ho.grows.trans o₂.grows)

/-- The statements of a template, and its templates, as they are read. -/
theorem readLists_apply (v : Value) (s : Store) : readLists v s =
    (statementsOf (memberOf s "statements" v) >>= fun statements =>
      pure (statements, memberOf s "templates" v) : Act (List Value × Value)) s := by
  refine (bind_of_ok (member_apply (by decide) v s)).trans ?_
  exact bind_of_ok (member_apply (by decide) v s)

/-! ### Templates apart from the region -/

section Templates

variable (hv : Apart r s v) (hv' : Apart r s v') (halike : Alike r s s)
  (o : Outcome r s s r' t t' none)

include hv hv' halike o

theorem Apart.memberOf_eq (name : String) :
    memberOf t name v = memberOf s name v ∧ memberOf t' name v' = memberOf s name v' :=
  ⟨(hv.kept o).memberOf name, (hv'.kept' halike o).memberOf name⟩

/-- A member of both templates, read in later stores. -/
theorem Apart.member_relates {name : String} (hname : name ∉ Field.containerNames)
    {results : Region → Store → Store → Value → Value → Prop}
    (hresults : results r' t t' (memberOf s name v) (memberOf s name v')) :
    Relates faults results r' t t' (member name v) (member name v') := by
  obtain ⟨hmember, hmember'⟩ := hv.memberOf_eq hv' halike o name
  refine relates_of_ok (member_apply hname v t) (member_apply hname v' t') o.alike.outcome_refl ?_
  rw [hmember, hmember']
  exact hresults

/-- The statements of both templates are read alike, and indices lead to templates that belong
together. -/
theorem Apart.readLists_relates (hrefl : ∀ e, faults e e)
    (hstatements : StatementsRelate faults r' t t' (memberOf s "statements" v)
      (memberOf s "statements" v'))
    (htemplates : SameItems r s (Matched R r) (memberOf s "templates" v) (memberOf s "templates" v')) :
    Relates faults (fun r t t' p p' => List.Forall₂ (ReadsLater faults r t t') p.1 p'.1 ∧
      ChildrenMatch faults R r t t' p.2 p'.2) r' t t' (readLists v) (readLists v') := by
  rw [Relates, readLists_apply, readLists_apply, (hv.memberOf_eq hv' halike o _).1,
    (hv.memberOf_eq hv' halike o _).2, (hv.memberOf_eq hv' halike o _).1,
    (hv.memberOf_eq hv' halike o _).2]
  exact hstatements.bind fun o₁ hlists => relates_of_ok rfl rfl o₁.alike.outcome_refl
    ⟨hlists, htemplates.childrenMatch hrefl halike (o.trans o₁)⟩

end Templates

end Items

end Opcode

end TemplateRecovery
