import TemplateRecovery.Proofs.Recast.Running
import TemplateRecovery.Recover

/-!
# Artifacts of another form

A template is a mapping or an object with attributes, its meta data are too, and its arrays are lists
or tuples. Which of the two they are makes no difference, in either encoding and however deep they are
nested: the same tree is recovered, or the failure is of the same class.

Artifacts are compared as they are in one store. What differs in form is held outside of a region that
nothing leads out of; all that is the same is inside.

* `Artifact.Recast` compares one level of two artifacts, `Artifact.DifferInForm` whole artifacts, which
  may refer to themselves.
* `Artifact.Recast.parts` is about declarative templates, member by member.
* `Recover.load_ignores_form` is the result.
-/

namespace TemplateRecovery

open Act Fault Opcode Revision Artifact Store

variable {name : String} {m : Machine} {i : Nat}

namespace Artifact

/-- A mapping or an object with attributes, outside of a region. -/
def MappingApart (r : Region) (s : Store) (v : Value) : Prop :=
  ∃ id, v = .object id ∧ id ∉ r ∧
    ((∃ entries, s.object? id = some (.map entries)) ∨ ∃ fields, s.object? id = some (.record fields))

/-- One value, or two meta data of any form that declare the same revision. -/
inductive SameRevision (r : Region) (s : Store) : Value → Value → Prop
  | same {v : Value} (hv : InRegion r v) : SameRevision r s v v
  | apart {v v' : Value} (hv : MappingApart r s v) (hv' : MappingApart r s v')
      (hrevision : memberOf s "revision" v' = memberOf s "revision" v)
      (hregion : InRegion r (memberOf s "revision" v)) : SameRevision r s v v'

/-- The members of two templates belong together, one by one. The templates that they refer to are
related. -/
structure MembersMatch (T : Value → Value → Prop) (r : Region) (s : Store) (f g : String → Value) :
    Prop where
  revision : g "revision" = f "revision" ∧ InRegion r (f "revision")
  metaData : SameRevision r s (f "meta") (g "meta")
  render : FunctionRel Routine.Recast r s s (f "render") (g "render")
  fragment : g "buildFragment" = f "buildFragment" ∧ InRegion r (f "buildFragment")
  slots : FunctionRel Routine.RecastSlots r s s (f "buildRenderNodes") (g "buildRenderNodes")
  statements : RecastAs r s s .statements (f "statements") (g "statements")
  templates : SameItems r s (Matched T r) (f "templates") (g "templates")

/-- **Two artifacts of any form with members that belong together.** -/
structure Recast (T : Value → Value → Prop) (r : Region) (s : Store) (v v' : Value) : Prop where
  mapping : MappingApart r s v
  mapping' : MappingApart r s v'
  members : MembersMatch T r s (fun name => memberOf s name v) fun name => memberOf s name v'

/-- **Two artifacts differ in form only**: they are related by a relation that goes on to the templates
which they refer to. -/
def DifferInForm (s : Store) (v v' : Value) : Prop :=
  ∃ (r : Region) (T : Value → Value → Prop),
    (∀ id ∈ r, ∀ o, s.object? id = some o → InRegion r o) ∧ r.Within s ∧ T v v' ∧
      ∀ w w', T w w' → Recast T r s w w'

/-! ### Members -/

section Members

variable {r r' : Region} {s t t' : Store} {v v' : Value} {T : Value → Value → Prop}

theorem MappingApart.apart (h : MappingApart r s v) : Apart r s v := by
  obtain ⟨id, rfl, hid, ⟨entries, ho⟩ | ⟨fields, ho⟩⟩ := h
  · exact ⟨id, _, rfl, hid, ho⟩
  · exact ⟨id, _, rfl, hid, ho⟩

/-- An empty mapping has no members; an object with attributes always counts as present. -/
theorem MappingApart.truthy (h : MappingApart r s v) (hmember : memberOf s name v ≠ .null) :
    s.truthy v = true := by
  obtain ⟨id, rfl, -, ⟨entries, ho⟩ | ⟨fields, ho⟩⟩ := h
  · cases entries with
    | nil =>
      refine absurd ?_ hmember
      simp only [memberOf, memberOf?, entries?, asObject?_of_object? ho]
      rfl
    | cons e rest => simp [truthy, ho]
  · simp [truthy, ho]

/-- Meta data that declare the same revision are accepted together. -/
theorem SameRevision.accepted (h : SameRevision r s v v') (halike : Alike r s s)
    (o : Outcome r s s r' t t' none) :
    (t'.truthy v' && isRevision (memberOf t' "revision" v')) =
      (t.truthy v && isRevision (memberOf t "revision" v)) := by
  cases h with
  | same hv =>
    have hv := hv.mono o.grows
    rw [o.alike.truthy hv, (memberOf_alike o.alike hv (by decide)).1]
  | apart hv hv' hrevision _ =>
    have hk := hv.apart.kept o
    have hk' := hv'.apart.kept' halike o
    rw [hk.truthy, hk.memberOf, hk'.truthy, hk'.memberOf, hrevision]
    cases hrev : isRevision (memberOf s "revision" v) with
    | false => simp
    | true =>
      have hmember : memberOf s "revision" v ≠ .null := fun hnull => by
        rw [hnull] at hrev
        cases hrev
      rw [hv.truthy hmember, hv'.truthy (hrevision ▸ hmember)]

theorem SameRevision.revision (h : SameRevision r s v v') (halike : Alike r s s) :
    memberOf s "revision" v' = memberOf s "revision" v ∧ InRegion r (memberOf s "revision" v) := by
  cases h with
  | same hv => exact ⟨rfl, (memberOf_alike halike hv (by decide)).2⟩
  | apart _ _ hrevision hregion => exact ⟨hrevision, hregion⟩

/-- A template passes all checks if it is present and its members are. -/
theorem firstViolated_eq_none (s : Store) (v : Value) : firstViolated s v = none ↔
    s.truthy v = true ∧ (s.truthy (memberOf s "meta" v) &&
        isRevision (memberOf s "revision" (memberOf s "meta" v))) = true ∧
      s.isCallable (memberOf s "buildFragment" v) = true ∧
      s.isCallable (memberOf s "buildRenderNodes" v) = true ∧
      (s.array? (memberOf s "statements" v)).isSome = true ∧
      (s.array? (memberOf s "templates" v)).isSome = true := by
  simp [firstViolated, firstFailing, requirements, and_assoc]

theorem array?_recastAs {reading : Reading} (h : RecastAs r s s reading v v') (halike : Alike r s s)
    (o : Outcome r s s r' t t' none) : (t'.array? v').isSome = (t.array? v).isSome := by
  rcases recastAs_iff.1 h with ⟨rfl, hv⟩ | ⟨_, _, _, -, hv, hv', hitems, hitems', -⟩
  · rw [o.alike.array? (hv.mono o.grows)]
  · rw [(hv.kept o).array?, (hv'.kept' halike o).array?, hitems, hitems']
    rfl

/-- The items of an array that are all read in one way belong together one by one. -/
theorem forall₂_of_recast {reading : Reading} {vs vs' : List Value}
    (h : Opcode.Recast r s s (.all reading) vs vs') :
    List.Forall₂ (RecastAs r s s reading) vs vs' := by
  induction vs generalizing vs' with
  | nil =>
    rw [h.eq_nil]
    exact .nil
  | cons v vs ih =>
    obtain ⟨v', ws, rfl, hv, hrest⟩ := h.exists_cons
    exact .cons hv (ih hrest)

namespace Recast

variable (h : Recast T r s v v') (halike : Alike r s s) (o : Outcome r s s r' t t' none)
include h halike o

/-- Both templates pass all checks or neither does. -/
theorem firstViolated_iff : firstViolated t' v' = none ↔ firstViolated t v = none := by
  have hmember := h.mapping.apart.memberOf_eq h.mapping'.apart halike o
  obtain ⟨hmeta, hmeta'⟩ := hmember "meta"
  obtain ⟨hfragment, hfragment'⟩ := hmember "buildFragment"
  obtain ⟨hslots, hslots'⟩ := hmember "buildRenderNodes"
  obtain ⟨hstatements, hstatements'⟩ := hmember "statements"
  obtain ⟨htemplates, htemplates'⟩ := hmember "templates"
  rw [firstViolated_eq_none, firstViolated_eq_none, hmeta, hmeta', h.members.metaData.accepted halike o,
    hfragment, hfragment', h.members.fragment.1, o.alike.isCallable (h.members.fragment.2.mono o.grows), hslots,
    hslots', (h.members.slots.later halike o).isCallable o.alike, hstatements, hstatements',
    array?_recastAs h.members.statements halike o, htemplates, htemplates', h.members.templates.array? halike o]
  -- What has meta data is present, whatever its form.
  have hpresent : (t.truthy (memberOf s "meta" v) &&
      isRevision (memberOf t "revision" (memberOf s "meta" v))) = true →
      t.truthy v = true ∧ t'.truthy v' = true := by
    intro haccepted
    have hnull : ∀ {u : Store} {w : Value},
        (u.truthy w && isRevision (memberOf u "revision" w)) = true → w ≠ .null := by
      rintro u w htrue rfl
      cases htrue
    rw [(h.mapping.apart.kept o).truthy, (h.mapping'.apart.kept' halike o).truthy]
    have haccepted' := (h.members.metaData.accepted halike o).trans haccepted
    exact ⟨h.mapping.truthy (hnull haccepted), h.mapping'.truthy (hnull haccepted')⟩
  constructor
  · rintro ⟨-, haccepted, hrest⟩
    exact ⟨(hpresent haccepted).1, haccepted, hrest⟩
  · rintro ⟨-, haccepted, hrest⟩
    exact ⟨(hpresent haccepted).2, haccepted, hrest⟩

theorem validate_relates : Relates SameClass Same r' t t' (validate v) (validate v') := by
  have hiff := h.firstViolated_iff halike o
  rcases validate_verdict v t with ⟨hnone, hok⟩ | ⟨p, hsome, herror⟩
  · rcases validate_verdict v' t' with ⟨-, hok'⟩ | ⟨p', hsome', -⟩
    · exact relates_of_ok hok hok' o.alike.outcome_refl ⟨rfl, inRegion_unit _⟩
    · rw [hiff.2 hnone] at hsome'
      cases hsome'
  · rcases validate_verdict v' t' with ⟨hnone', -⟩ | ⟨p', -, herror'⟩
    · rw [hiff.1 hnone'] at hsome
      cases hsome
    · exact relates_of_error herror herror' trivial (o.alike.outcome (fills_of_eq rfl rfl))

theorem fragment_relates (hm : m.Tolerant) {args : List Value} (hargs : InRegion r' args) :
    Relates SameClass Same r' t t' (callBuilder m v "buildFragment" args)
      (callBuilder m v' "buildFragment" args) := by
  refine (h.mapping.apart.member_relates h.mapping'.apart halike o (by decide)
    ⟨h.members.fragment.1, h.members.fragment.2.mono o.grows⟩).bind_same fun o' hbuilder => ?_
  exact Local.relates (hm.isLocal.call o'.alike hbuilder (hargs.mono o'.grows)) sameClass_refl

theorem slots_relates (hm : m.Tolerant) (hr : r.Within s) {args : List Value}
    (hargs : InRegion r' args) :
    Relates SameClass Same r' t t' (buildSlots m v args) (buildSlots m v' args) := by
  have hcall : Relates SameClass (fun r t t' => ArrayRel r t t') r' t t'
      (callBuilder m v "buildRenderNodes" args) (callBuilder m v' "buildRenderNodes" args) := by
    refine Relates.bind (h.mapping.apart.member_relates h.mapping'.apart halike o (by decide) (h.members.slots.later halike o))
      fun {f f' r₁ t₁ t₁'} o₁ hf => ?_
    exact hm.slots o₁.alike (hr.later (o.trans o₁)) hf (hargs.mono o₁.grows)
  refine Relates.bind hcall fun {returned returned' r₁ t₁ t₁'} o₁ harray => ?_
  cases harray with
  | same hv => exact Local.relates (expectSlots_local o₁.alike hv) sameClass_refl
  | apart hv hv' hitems hitems' hregion =>
    refine relates_store ?_
    rw [hitems, hitems']
    exact Local.relates (local_pure o₁.alike hregion) sameClass_refl

theorem statements_relate : StatementsRelate SameClass r' t t' (memberOf s "statements" v)
    (memberOf s "statements" v') := by
  rcases recastAs_iff.1 h.members.statements with
    ⟨heq, hv⟩ | ⟨_, _, _, hinside, hv, hv', hitems, hitems', hrecast⟩
  · rw [heq]
    exact statementsRelate_of_region sameClass_refl o.alike (hv.mono o.grows)
  · cases hinside
    refine relates_of_ok (statementsOf_of_array? ((hv.kept o).array?.trans hitems))
      (statementsOf_of_array? ((hv'.kept' halike o).array?.trans hitems')) o.alike.outcome_refl ?_
    exact (forall₂_of_recast hrecast).imp fun _ _ hread => (hread.readsLater halike).later o

omit o in
/-- **Templates of any form are made of parts that belong together.** -/
theorem parts (hm : m.Tolerant) (hr : r.Within s) : Parts SameClass m T r s s v v' where
  valid _ _ _ o := h.validate_relates halike o
  fragment _ _ _ o _ hargs := h.fragment_relates halike o hm hargs
  slots _ _ _ o _ hargs := h.slots_relates halike o hm hr hargs
  lists _ _ _ o := h.mapping.apart.readLists_relates h.mapping'.apart halike o sameClass_refl
    (h.statements_relate halike o) h.members.templates

end Recast

/-- Only the members that a template can have are compared. -/
theorem MembersMatch.congr {f f' g g' : String → Value} (h : MembersMatch T r s f g)
    (hf : ∀ name ∈ memberNames, f' name = f name) (hg : ∀ name ∈ memberNames, g' name = g name) :
    MembersMatch T r s f' g' := by
  constructor
  · rw [hf _ (by decide), hg _ (by decide)]
    exact h.revision
  · rw [hf _ (by decide), hg _ (by decide)]
    exact h.metaData
  · rw [hf _ (by decide), hg _ (by decide)]
    exact h.render
  · rw [hf _ (by decide), hg _ (by decide)]
    exact h.fragment
  · rw [hf _ (by decide), hg _ (by decide)]
    exact h.slots
  · rw [hf _ (by decide), hg _ (by decide)]
    exact h.statements
  · rw [hf _ (by decide), hg _ (by decide)]
    exact h.templates

/-- A mapping and an object with attributes belong together if their fields do. -/
theorem recast_of_fields {id id' : ObjectId} {fields fields' : Fields} (hid : id ∉ r) (hid' : id' ∉ r)
    (ho : s.object? id = some (.map (fieldEntries fields)))
    (ho' : s.object? id' = some (.record fields'))
    (h : MembersMatch T r s (fun name => (fields.lookup name).getD .null)
      fun name => (fields'.lookup name).getD .null) :
    Recast T r s (.object id) (.object id') where
  mapping := ⟨id, rfl, hid, .inl ⟨_, ho⟩⟩
  mapping' := ⟨id', rfl, hid', .inr ⟨_, ho'⟩⟩
  members := h.congr (fun _ => memberOf_named (.inl ho)) fun _ => memberOf_named (.inr ho')

end Members

end Artifact

/-! ### Revisions -/

theorem Revision.find?_apply (v : Value) (s : Store) : find? v s =
    .ok (if s.truthy (memberOf s "revision" v) then some (memberOf s "revision" v)
      else if s.truthy (memberOf s "revision" (memberOf s "meta" v)) then
        some (memberOf s "revision" (memberOf s "meta" v)) else none) s := by
  refine (bind_of_ok (member_apply (by decide) v s)).trans ?_
  rw [Act.bind_store]
  split_ifs with hown hinner
  · rfl
  · refine (bind_of_ok (member_apply (by decide) v s)).trans ?_
    refine (bind_of_ok (member_apply (by decide) _ s)).trans ?_
    rw [Act.bind_store, if_pos hinner]
    rfl
  · refine (bind_of_ok (member_apply (by decide) v s)).trans ?_
    refine (bind_of_ok (member_apply (by decide) _ s)).trans ?_
    rw [Act.bind_store, if_neg hinner]
    rfl

instance : Names Format := ⟨fun _ => []⟩

theorem Revision.formatOf_ordinary (revision : String) (e : Fault)
    (h : formatOf revision = .error e) : e.isOrdinary = true := by
  unfold formatOf major? at h
  split at h
  · cases h
    rfl
  · split_ifs at h
    · cases h
      rfl
    · dsimp only [bind, Except.bind] at h
      split at h
      · cases h
      · cases h
        rfl

section Loading

variable {r r' : Region} {s t t' : Store} {v v' : Value} {T : Value → Value → Prop}

/-- Artifacts of any form have the same revision and encoding. -/
theorem Artifact.Recast.detect_relates (h : Recast T r s v v') (halike : Alike r s s) :
    Relates SameClass Same r s s (detect v) (detect v') := by
  have hfind : Relates SameClass Same r s s (find? v) (find? v') := by
    obtain ⟨hrevision, hregion⟩ := h.members.revision
    obtain ⟨hinner, hregion'⟩ := h.members.metaData.revision halike
    have hfound := find?_apply v' s
    rw [hrevision, hinner] at hfound
    refine relates_of_ok (find?_apply v s) hfound halike.outcome_refl ⟨rfl, ?_⟩
    split_ifs
    · exact inRegion_some.2 hregion
    · exact inRegion_some.2 hregion'
    · exact inRegion_none
  have htext : Relates SameClass Same r s s (text? v) (text? v') := by
    refine hfind.bind_same fun {found _ _ _} o hfound => Local.relates ?_ sameClass_refl
    cases found with
    | none => exact local_pure o.alike inRegion_none
    | some w =>
      refine (local_text o.alike (inRegion_some.1 hfound)).bind fun o' _ => ?_
      exact local_pure o'.alike (inRegion_some.2 (inRegion_string _))
  refine htext.bind_same fun {found _ _ _} o _ => Local.relates ?_ sameClass_refl
  cases found with
  | none => exact local_fail o.alike rfl
  | some revision =>
    dsimp only
    split_ifs
    · exact local_fail o.alike rfl
    · refine Local.bind (local_lift o.alike (fun _ _ => inRegion_of_ids rfl)
        (formatOf_ordinary revision)) fun o' _ => ?_
      exact local_pure o'.alike (inRegion_prod.2 ⟨inRegion_string _, inRegion_of_ids rfl⟩)

/-- Artifacts of any form are recovered alike, in either encoding. -/
theorem Recover.tree_relates (hclosed : Alike r s s) (hr : r.Within s)
    (hT : ∀ w w', T w w' → Recast T r s w w') (hv : T v v')
    (o : Outcome r s s r' t t' none) (format : Format) :
    Relates SameClass Same r' t t' (Recover.tree format v) (Recover.tree format v') := by
  have hmachine : t'.machine 0 = t.machine 0 := by
    rw [machine, machine, o.alike.storeDepth]
  have htolerant : (t.machine 0).Tolerant := Machine.ofDepth_tolerant _
  have hform := hT v v' hv
  cases format with
  | hooks =>
    refine relates_store ?_
    rw [hmachine]
    have htemplate : TemplateRel r s s v v' :=
      .apart hform.mapping.apart hform.mapping'.apart hform.members.render
    exact Hook.recover_relates htolerant o.alike (hr.later o) (htemplate.later hclosed o)
  | opcodes =>
    refine relates_store ?_
    rw [hmachine, o.alike.storeDepth]
    exact recoverWithin_relates sameClass_refl htolerant.isLocal
      (fun hw => (hT _ _ hw).parts hclosed htolerant hr) t.depth o (.inr hv)

end Loading

namespace Recover

/-- The members of a declarative template of `formStore`. -/
def formFields (metaData slots statements templates : Nat) : Fields :=
  [("meta", .object ⟨metaData⟩), ("buildFragment", .object ⟨0⟩), ("buildRenderNodes", .object ⟨slots⟩),
    ("statements", .object ⟨statements⟩), ("templates", .object ⟨templates⟩)]

/-- A rendering function that passes a template on to a block. -/
def formRender (template : Term) : Routine :=
  .mk .render [.mk (some "slot") .value [.placeholder .null],
    .mk none (.hook "block") ([.register "slot", .str "if", .list [], .map []] ++ [template])]
    (.register "slot")

/-- The members of the template that is passed on. -/
def formInner : List (String × Term) := [("render", .routine (.mk .render [] (.text (.str "hello"))))]

/-- Two artifacts, one of each encoding, in two forms: of mappings and lists, and of objects with
attributes and tuples. Each has a block that holds another template. -/
def formStore : Store where
  objects := #[
    .function (.routine (.mk .fragment [] (.placeholder .null))) [],
    .list [],
    .function (.routine (.mk .slots [] (.list [.register "fragment"]))) [],
    .function (.routine (.mk .slots [] (.tuple [.register "fragment"]))) [],
    .map (fieldEntries [("revision", .str "Ember@2.0.0")]),
    .record [("revision", .str "Ember@2.0.0")],
    .list [.str "content", .str "name"],
    .tuple [.str "content", .str "name"],
    .list [.object ⟨6⟩],
    .tuple [.object ⟨7⟩],
    .map (fieldEntries (formFields 4 2 8 1)),
    .record (formFields 5 3 9 1),
    .list [.str "get", .str "flag"],
    .tuple [.str "get", .str "flag"],
    .list [.object ⟨12⟩],
    .tuple [.object ⟨13⟩],
    .list [.str "block", .str "if", .object ⟨14⟩, .object ⟨1⟩, .int 0, .null],
    .tuple [.str "block", .str "if", .object ⟨15⟩, .object ⟨1⟩, .int 0, .null],
    .list [.object ⟨16⟩],
    .tuple [.object ⟨17⟩],
    .list [.object ⟨10⟩],
    .tuple [.object ⟨11⟩],
    .map (fieldEntries (formFields 4 2 18 20)),
    .record (formFields 5 3 19 21),
    .function (.routine (formRender (.map (namedTerms formInner)))) [],
    .function (.routine (formRender (.object formInner))) [],
    .map (fieldEntries [("revision", .str "Ember@1.13.0"), ("render", .object ⟨24⟩)]),
    .record [("revision", .str "Ember@1.13.0"), ("render", .object ⟨25⟩)]]

/-- The artifacts and templates of `formStore` that belong together. -/
def formPairs : List (Value × Value) :=
  [(.object ⟨22⟩, .object ⟨23⟩), (.object ⟨10⟩, .object ⟨11⟩), (.object ⟨26⟩, .object ⟨27⟩)]

/-- The first objects of `formStore`, which all its artifacts share. -/
def formRegion : Region := {id | id.index < 2}

theorem apart_formStore {o : Object} (ho : formStore.object? ⟨i⟩ = some o) (hi : 2 ≤ i) :
    Apart formRegion formStore (.object ⟨i⟩) :=
  ⟨_, o, rfl, Nat.not_lt.2 hi, ho⟩

theorem inRegion_formRegion (hi : i < 2) : InRegion formRegion (Value.object ⟨i⟩) :=
  inRegion_object.2 hi

/-- The templates that are passed on to the block belong together. -/
theorem recast_formRender :
    (formRender (.map (namedTerms formInner))).Recast (formRender (.object formInner)) := by
  have hinner : Script.Recast .template [] (.forms [.map (namedTerms formInner)])
      (.forms [.object formInner]) :=
    .forms (.mapping (by decide) (.inl rfl) (.inr rfl) (.member _ (.constant rfl) .noMembers)) .noForms
  have hargs : Script.Recast .template []
      (.terms [.register "slot", .str "if", .list [], .map []])
      (.terms [.register "slot", .str "if", .list [], .map []]) :=
    .terms (.register (by decide)) (.terms (.constant rfl)
      (.terms (.gather .list .noTerms) (.terms (.map .noEntries) .noTerms)))
  have hslot : Script.Recast .template [] (.term (.call .value [.placeholder .null]))
      (.term (.call .value [.placeholder .null])) :=
    .call .value (.terms (.wrap .placeholder (.constant rfl)) .noTerms)
  refine .render (by simp) (.steps (.step (by simp) hslot) ?_) (.register (by decide))
  exact .steps (.step (by simp) (.callBlock (.inl rfl) rfl hargs hinner)) .noSteps

/-- The slots are returned in a list and in a tuple. -/
theorem slots_formStore : FunctionRel Routine.RecastSlots formRegion formStore formStore
    (.object ⟨2⟩) (.object ⟨3⟩) := by
  refine .routines (Nat.not_lt.2 (by decide)) (Nat.not_lt.2 (by decide)) rfl rfl ?_
  have hheld : ∀ name ∈ reservedNames, name ∉ ([] : List String) := by simp
  exact .mk hheld .noSteps
    (.array (.inl rfl) (.inr rfl) (.terms (.register (by decide)) .noTerms))

/-- The meta data of `formStore` declare the same revision. -/
theorem metaData_formStore : SameRevision formRegion formStore (.object ⟨4⟩) (.object ⟨5⟩) := by
  have ho : formStore.object? ⟨4⟩ =
      some (.map (fieldEntries [("revision", .str "Ember@2.0.0")])) := rfl
  have ho' : formStore.object? ⟨5⟩ = some (.record [("revision", .str "Ember@2.0.0")]) := rfl
  have hname : "revision" ∈ memberNames := by decide
  have hrevision : memberOf formStore "revision" (.object ⟨4⟩) = .str "Ember@2.0.0" :=
    memberOf_named (.inl ho) hname
  have hrevision' : memberOf formStore "revision" (.object ⟨5⟩) = .str "Ember@2.0.0" :=
    memberOf_named (.inr ho') hname
  refine .apart ⟨_, rfl, Nat.not_lt.2 (by decide), .inl ⟨_, ho⟩⟩
    ⟨_, rfl, Nat.not_lt.2 (by decide), .inr ⟨_, ho'⟩⟩ (hrevision'.trans hrevision.symm) ?_
  exact hrevision ▸ inRegion_str _

/-- The members of declarative templates of `formStore` belong together if their arrays do. -/
theorem membersMatch_formStore {T : Value → Value → Prop} {a b a' b' : Nat}
    (hstatements : RecastAs formRegion formStore formStore .statements (.object ⟨a⟩) (.object ⟨a'⟩))
    (htemplates : SameItems formRegion formStore (Matched T formRegion) (.object ⟨b⟩) (.object ⟨b'⟩)) :
    MembersMatch T formRegion formStore
      (fun name => ((formFields 4 2 a b).lookup name).getD .null)
      fun name => ((formFields 5 3 a' b').lookup name).getD .null where
  revision := ⟨rfl, inRegion_null⟩
  metaData := metaData_formStore
  render := .same inRegion_null
  fragment := ⟨rfl, inRegion_formRegion (by decide)⟩
  slots := slots_formStore
  statements := hstatements
  templates := htemplates

/-- Arrays of `formStore` with items that belong together. -/
theorem array_formStore (reading : Reading) {inner : Layout} {j : Nat} {items items' : List Value}
    (hinside : reading.inside? = some inner) (ho : formStore.object? ⟨i⟩ = some (.list items))
    (ho' : formStore.object? ⟨j⟩ = some (.tuple items')) (hi : 2 ≤ i) (hj : 2 ≤ j)
    (h : Opcode.Recast formRegion formStore formStore inner items items') :
    RecastAs formRegion formStore formStore reading (.object ⟨i⟩) (.object ⟨j⟩) := by
  refine recastAs_iff.2 (.inr ⟨inner, items, items', hinside, apart_formStore ho hi,
    apart_formStore ho' hj, ?_, ?_, h⟩)
  · rw [array?, asObject?_of_object? ho]
  · rw [array?, asObject?_of_object? ho']

theorem formStore_differInForm : ∀ p ∈ formPairs, DifferInForm formStore p.1 p.2 := by
  intro p hp
  refine ⟨formRegion, fun w w' => (w, w') ∈ formPairs, ?_, fun id hid => ?_, hp, ?_⟩
  · have hall : ∀ i < 2, ∀ o ∈ formStore.object? ⟨i⟩, ∀ id ∈ Names.ids o, id.index < 2 := by
      decide +kernel
    exact fun id hid o ho => hall id.index hid o ho
  · exact lt_of_lt_of_le hid (by decide)
  · intro w w' hw
    simp only [formPairs, List.mem_cons, List.not_mem_nil, or_false, Prod.mk.injEq] at hw
    have hempty := inRegion_formRegion (show 1 < 2 by decide)
    have hapart : ∀ {i : Nat}, 2 ≤ i → ObjectId.mk i ∉ formRegion := fun hi => Nat.not_lt.2 hi
    rcases hw with ⟨rfl, rfl⟩ | ⟨rfl, rfl⟩ | ⟨rfl, rfl⟩
    · have hflag := array_formStore .param rfl (i := 12) (j := 13) rfl rfl (by decide) (by decide)
        (.same (inRegion_str _) (.same (inRegion_str _) .nil))
      have hparams := array_formStore .params rfl (i := 14) (j := 15) rfl rfl (by decide) (by decide)
        (hflag.cons .nil)
      have hblock := array_formStore .statement rfl (i := 16) (j := 17) rfl rfl (by decide) (by decide)
        (.same (inRegion_str _) (.same (inRegion_str _) (hparams.cons
          (.same hempty (.same (inRegion_intValue _) (.same inRegion_null .nil))))))
      have hstatements := array_formStore .statements rfl (i := 18) (j := 19) rfl rfl (by decide)
        (by decide) (hblock.cons .nil)
      have htemplates : SameItems formRegion formStore
          (Matched (fun w w' => (w, w') ∈ formPairs) formRegion) (.object ⟨20⟩) (.object ⟨21⟩) :=
        .arrays (apart_formStore rfl (by decide)) (apart_formStore rfl (by decide)) rfl rfl
          (.cons (.inr (by decide)) .nil)
      exact recast_of_fields (hapart (by decide)) (hapart (by decide)) rfl rfl
        (membersMatch_formStore hstatements htemplates)
    · have hcontent := array_formStore .statement rfl (i := 6) (j := 7) rfl rfl (by decide) (by decide)
        (.same (inRegion_str _) (.same (inRegion_str _) .nil))
      have hstatements := array_formStore .statements rfl (i := 8) (j := 9) rfl rfl (by decide)
        (by decide) (hcontent.cons .nil)
      exact recast_of_fields (hapart (by decide)) (hapart (by decide)) rfl rfl
        (membersMatch_formStore hstatements (.same hempty))
    · refine recast_of_fields (hapart (by decide)) (hapart (by decide)) rfl rfl ?_
      exact {
        revision := ⟨rfl, inRegion_str _⟩
        metaData := .same inRegion_null
        render := .routines (hapart (by decide)) (hapart (by decide)) rfl rfl recast_formRender
        fragment := ⟨rfl, inRegion_null⟩
        slots := .same inRegion_null
        statements := recastAs_iff.2 (.inl ⟨rfl, inRegion_null⟩)
        templates := .same inRegion_null }

/-- A rendering function that assigns an item of a template before it passes it on to a block. -/
def assigningRender (template : Term) : Routine :=
  .mk .render [.mk (some "slot") .value [.placeholder .null], .mk (some "dom") .value [template],
    .mk none (.document "__setitem__") [.str "x", .int 1],
    .mk none (.hook "block") [.register "slot", .str "if", .list [], .map [], .register "dom"]]
    (.register "slot")

/-- An artifact with such a function, whose template is a mapping or an object with attributes. -/
def assigningStore : Store where
  objects := #[
    .function (.routine (assigningRender (.map (namedTerms formInner)))) [],
    .function (.routine (assigningRender (.object formInner))) [],
    .record [("revision", .str "Ember@1.13.0"), ("render", .object ⟨0⟩)],
    .record [("revision", .str "Ember@1.13.0"), ("render", .object ⟨1⟩)]]

end Recover

end TemplateRecovery
