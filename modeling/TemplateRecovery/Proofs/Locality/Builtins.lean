import TemplateRecovery.Proofs.Locality.Methods

/-!
# Operators, numbers and built-in functions stay in their region

* `Method.compare?_local` and `Method.callNumber_local` are about operators and numbers.
* `Method.callPart_local` is about nodes, morphs and expressions, which print themselves.
* `Builtin.callFunction_local` and `Builtin.construct_local` are about built-in functions and types.
-/

namespace TemplateRecovery

open Act Container

variable {v w : Value} {args : List Value}

variable {r : Region} {s s' : Store} (h : Alike r s s')

include h

namespace Method

/-! ### Operators -/

omit h in
theorem inRegion_noAnswer : InRegion r noAnswer := inRegion_foreign _ _

section Operators

variable (hv : InRegion r v)

include hv

theorem realm?_eq : realm? s' v = realm? s v := by
  cases v with
  | object id => rw [realm?, realm?, h.object id (inRegion_object.1 hv)]
  | _ => rfl

theorem answers_eq (hw : InRegion r w) : answers s' v w = answers s v w := by
  rw [answers, answers, realm?_eq h hv, realm?_eq h hw]

theorem sameAs_eq (hw : InRegion r w) : sameAs s' v w = sameAs s v w := by
  rw [sameAs, sameAs, answers_eq h hv hw, h.equal hv hw]

omit hv in
omit h in
theorem inRegion_answered (b : Option Bool) : InRegion r (answered b) := by
  cases b with
  | none => exact inRegion_noAnswer
  | some b => exact inRegion_boolValue b

theorem ordered_local (hw : InRegion r w) (test : Bool → Bool → Bool → Bool) :
    Relates Eq Same r s s' (ordered s v w test) (ordered s' v w test) := by
  unfold ordered
  rw [answers_eq h hv hw, realm?_eq h hv, h.less hv hw, h.less hw hv, h.equal hv hw]
  have hbool : ∀ b, Order.less s v w = .ok b → InRegion r b := fun b _ => inRegion_bool b
  have hbool' : ∀ b, Order.less s w v = .ok b → InRegion r b := fun b _ => inRegion_bool b
  split_ifs
  · refine Local.bind (local_lift h hbool (Alike.less_ordinary v w)) fun o _ => ?_
    refine Local.bind (local_lift o.alike (fun b _ => inRegion_bool b) (Alike.less_ordinary w v))
      fun o' _ => ?_
    exact local_pure o'.alike (inRegion_boolValue _)
  · exact local_pure h inRegion_noAnswer

/-- Whether a name is an operator depends on the name only, and the operator goes on alike. -/
theorem compare?_local (hw : InRegion r w) (name : String) :
    (compare? s name v w = none ∧ compare? s' name v w = none) ∨
      ∃ x y, compare? s name v w = some x ∧ compare? s' name v w = some y ∧
        Relates Eq Same r s s' x y := by
  unfold compare?
  rw [sameAs_eq h hv hw]
  split
  · exact .inr ⟨_, _, rfl, rfl, local_pure h (inRegion_answered _)⟩
  · exact .inr ⟨_, _, rfl, rfl, local_pure h (inRegion_answered _)⟩
  iterate 4 exact .inr ⟨_, _, rfl, rfl, ordered_local h hv hw _⟩
  exact .inl ⟨rfl, rfl⟩

/-! ### Numbers -/

omit hv in
theorem callWhole_local (n : Int) (name : String) (args : List Value) :
    (callWhole n name args).Local r s s' := by
  unfold callWhole
  split
  iterate 13 exact local_pure h (by simp)
  · exact local_new h (by simp)
  · split
    · split <;> first | exact local_pure h (inRegion_intValue _) | exact local_fail h rfl
    · split_ifs
      · exact local_pure h inRegion_noAnswer
      · exact local_fail h rfl
  · exact local_fail h rfl

omit hv in
theorem lowestTerms_local (x : Binary64) : (lowestTerms x).Local r s s' := by
  unfold lowestTerms
  split
  · exact local_fail h rfl
  · exact local_fail h rfl
  · exact local_new h (by simp)

theorem callDouble_local (x : Binary64) (name : String)
    (args : List Value) : (callDouble v x name args).Local r s s' := by
  unfold callDouble
  split
  iterate 3 exact local_pure h hv
  · exact local_newFloat h _
  · exact local_pure h (inRegion_boolValue _)
  · exact local_pure h (inRegion_boolValue _)
  · exact lowestTerms_local h x
  · split
    · split <;> first | exact local_newFloat h _ | exact local_fail h rfl
    · split_ifs
      · exact local_pure h inRegion_noAnswer
      · exact local_fail h rfl
  · exact local_fail h rfl

theorem callNumber_local (name : String) (args : List Value) :
    (callNumber v name args).Local r s s' := by
  unfold callNumber
  split
  · exact callWhole_local h _ name args
  · exact callDouble_local h hv _ name args
  · exact local_fail h rfl

/-! ### Nodes, morphs and expressions -/

omit hv in
theorem treeText_local {text : Except Fault String} (htext : Ordinary text) : (do
      let text ← Act.lift text
      return .str text : Act Value).Local r s s' :=
  Local.bind (local_lift h (fun _ _ => inRegion_string _) htext) fun o _ =>
    local_pure o.alike (inRegion_str _)

theorem printAt_local {indent step : Value}
    (hindent : InRegion r indent) (hstep : InRegion r step) :
    (printAt v indent step).Local r s s' := by
  refine local_store ?_
  rw [h.tree hv, h.view hindent, h.view hstep]
  exact treeText_local h ((View.settles (by rfl) _).render _ _)

theorem print_local (hargs : InRegion r args) : (print v args).Local r s s' := by
  unfold print
  split <;> try simp only [inRegion_cons, inRegion_nil, and_true] at hargs
  · exact printAt_local h hv (inRegion_intValue 0) inRegion_null
  · exact printAt_local h hv hargs inRegion_null
  · rename_i indent options
    have hstep : (stepOf options).Local r s s' := by
      unfold stepOf
      split
      · exact local_pure h inRegion_null
      · exact Attribute.get_local h hargs.2 "indent"
    exact hstep.bind fun o hstep =>
      printAt_local o.alike (hv.mono o.grows) (hargs.1.mono o.grows) hstep
  · exact local_fail h rfl

theorem textOf_local {f : View → Except Fault String}
    (hf : ∀ view, Ordinary (f view)) : (textOf v f).Local r s s' := by
  refine local_store ?_
  rw [h.tree hv]
  exact treeText_local h (hf _)

theorem argumentOf_local {e : Expression} (he : InRegion r e) : (argumentOf v e).Local r s s' := by
  unfold argumentOf
  split
  · exact local_pure h (inRegion_path.1 he)
  · exact textOf_local h hv fun view =>
      (view.settles (by rfl)).argument

theorem callPart_local {o : Object} (ho : InRegion r o)
    (name : String) (hargs : InRegion r args) : (callPart v o name args).Local r s s' := by
  unfold callPart
  split
  · exact print_local h hv hargs
  · exact print_local h hv hargs
  · exact textOf_local h hv fun view => (view.settles (by rfl)).inline
  · exact argumentOf_local h hv (inRegion_expressionObject.1 ho)
  · exact textOf_local h hv fun view => view.rawText_failsOnly (by rfl)
  · split
    · exact local_pure h (inRegion_label _)
    · exact local_fail h rfl
  · exact local_fail h rfl

end Operators

end Method

namespace Builtin

/-! ### Types -/

omit h in
theorem truncate_ordinary (x : Binary64) : Ordinary (truncate x) := by
  unfold truncate
  split
  · exact failsOnly_error rfl
  · exact failsOnly_error rfl
  · exact failsOnly_ok _

omit h in
theorem readInt_ordinary (t : String) : Ordinary (Fault.readInt t) := by
  unfold Fault.readInt
  simp only
  split
  · exact failsOnly_error rfl
  · exact failsOnly_ok _
  · exact failsOnly_error rfl

omit h in
theorem readFloat_ordinary (t : String) : Ordinary (Fault.readFloat t) := by
  unfold Fault.readFloat
  split
  · exact failsOnly_ok _
  · exact failsOnly_error rfl

/-- A whole number that is computed without the store. -/
theorem liftInt_local {x : Except Fault Int} (hx : Ordinary x) : (do
      let n ← Act.lift x
      return .int n : Act Value).Local r s s' :=
  Local.bind (local_lift h (fun _ _ => inRegion_int _) hx) fun o _ =>
    local_pure o.alike (inRegion_intValue _)

theorem toInt_local (v : Value) : (toInt v).Local r s s' := by
  unfold toInt
  split
  · exact liftInt_local h (readInt_ordinary _)
  · exact liftInt_local h (truncate_ordinary _)
  · exact liftInt_local h (truncate_ordinary _)
  · split
    · exact local_pure h (inRegion_intValue _)
    · exact local_fail h rfl

theorem toFloat_local (v : Value) : (toFloat v).Local r s s' := by
  unfold toFloat
  split
  · exact Local.bind (local_lift h (fun _ _ => inRegion_double _) (readFloat_ordinary _)) fun o _ =>
      local_newFloat o.alike _
  · exact local_pure h (inRegion_float _)
  · exact local_pure h (inRegion_nan _)
  · split
    · split
      · exact local_fail h rfl
      · exact local_pure h (inRegion_float _)
    · exact local_fail h rfl

theorem made_local (typeName : String) : (made typeName).Local r s s' :=
  local_pure h (inRegion_foreign _ _)

theorem requireItems_local (hv : InRegion r v) : (requireItems v).Local r s s' :=
  (items_local h hv).bind fun o _ => local_pure o.alike (inRegion_unit _)

theorem walkerName_eq (hv : InRegion r v) : walkerName s' v = walkerName s v := by
  unfold walkerName
  simp only [h.entries? hv]
  split
  · rfl
  · rfl
  · rw [h.typeName hv]

theorem backwardsName_eq (hv : InRegion r v) : backwardsName s' v = backwardsName s v := by
  rw [backwardsName, backwardsName, h.asObject? hv]

theorem requireBytes_local (typeName : String) :
    ∀ values : List Value, (requireBytes typeName values).Local r s s'
  | [] => local_pure h (inRegion_unit _)
  | v :: rest => by
    unfold requireBytes
    split
    · exact local_fail h rfl
    · split_ifs
      · exact requireBytes_local typeName rest
      · exact local_fail h rfl
      · exact local_fail h rfl

theorem bytesOf_local (typeName : String) (hv : InRegion r v) :
    (bytesOf typeName v).Local r s s' := by
  unfold bytesOf
  split
  · exact local_fail h rfl
  · split_ifs
    · exact local_fail h rfl
    · exact local_fail h rfl
    · exact made_local h typeName
  · refine (items_local h hv).bind fun o _ => ?_
    exact (requireBytes_local o.alike typeName _).bind fun o' _ => made_local o'.alike typeName

theorem range_local (numbers : List Int) : (range numbers).Local r s s' := by
  unfold range
  split
  · exact local_pure h (inRegion_foreign _ _)
  · exact local_pure h (inRegion_foreign _ _)
  · split_ifs
    · exact local_fail h rfl
    · exact local_pure h (inRegion_foreign _ _)
    · exact local_pure h (inRegion_foreign _ _)
  · exact local_fail h rfl

theorem map_view_eq {values : List Value} (hvalues : InRegion r values) :
    values.map s'.view = values.map s.view :=
  Alike.map_congr (fun _ hv => h.view hv) hvalues

theorem failureText_local (hargs : InRegion r args) : (failureText args).Local r s s' := by
  unfold failureText
  split
  · exact local_pure h (inRegion_string _)
  · exact local_text h (inRegion_cons.1 hargs).1
  · refine local_store ?_
    rw [map_view_eq h hargs]
    exact local_written h _

theorem setOf_local (typeName : String) (hv : InRegion r v) : (setOf typeName v).Local r s s' := by
  refine (items_local h hv).bind fun o hitems => local_store ?_
  rw [Method.all_isKey_eq o.alike hitems]
  split_ifs
  · exact made_local o.alike typeName
  · exact local_fail o.alike rfl

omit h in
theorem requireAll_local : ∀ {args : List Value} {r : Region} {s s' : Store}, Alike r s s' →
    InRegion r args → (args.forM requireItems).Local r s s'
  | [], _, _, _, h, _ => local_pure h (inRegion_unit _)
  | v :: rest, _, _, _, h, hargs => by
    simp only [inRegion_cons] at hargs
    exact (requireItems_local h hargs.1).bind fun o _ =>
      requireAll_local o.alike (hargs.2.mono o.grows)

theorem construct_local (typeName : String) (hargs : InRegion r args) :
    (construct typeName args).Local r s s' := by
  refine local_store ?_
  split <;> try simp only [inRegion_cons, inRegion_nil, and_true] at hargs
  · exact local_pure h (inRegion_str _)
  · exact Local.bind (local_text h hargs) fun o _ => local_pure o.alike (inRegion_str _)
  · exact local_pure h (inRegion_intValue _)
  · exact toInt_local h _
  · exact local_pure h (inRegion_float _)
  · exact toFloat_local h _
  · exact local_pure h (inRegion_boolValue _)
  · rw [h.truthy hargs]
    exact local_pure h (inRegion_boolValue _)
  · exact local_new h inRegion_nil
  · exact Local.bind (items_local h hargs) fun o hitems =>
      local_new o.alike (inRegion_listObject.2 hitems)
  · exact local_new h inRegion_nil
  · rw [h.asObject? hargs]
    split
    · exact local_pure h hargs
    · exact Local.bind (items_local h hargs) fun o hitems =>
        local_new o.alike (inRegion_tupleObject.2 hitems)
  · exact local_new h (inRegion_mapObject.2 inRegion_nil)
  · exact Local.bind (pairs_local h hargs) fun o hentries =>
      local_new o.alike (inRegion_mapObject.2 hentries)
  · exact made_local h _
  · exact setOf_local h _ hargs
  · exact made_local h _
  · exact setOf_local h _ hargs
  · rw [h.typeName hargs]
    exact local_pure h (inRegion_typeObject _)
  · exact made_local h _
  · split
    · exact range_local h _
    · exact local_fail h rfl
  · exact Local.bind (requireItems_local h hargs) fun o _ => made_local o.alike _
  · rw [backwardsName_eq h hargs]
    exact Local.bind (requireItems_local h hargs) fun o _ => made_local o.alike _
  · exact Local.bind (requireAll_local h hargs) fun o _ => made_local o.alike _
  iterate 3 exact made_local h _
  · exact local_pure h (inRegion_method.2 hargs)
  · exact made_local h _
  · exact bytesOf_local h _ hargs
  · exact made_local h _
  · exact bytesOf_local h _ hargs
  · exact Local.bind (toFloat_local h _) fun o _ => made_local o.alike _
  · split_ifs
    · exact Local.bind (failureText_local h hargs) fun o _ => local_pure o.alike (inRegion_foreign _ _)
    · exact local_fail h rfl

/-! ### Functions -/

theorem digitsOf_local (mark : String) (base : Nat) (v : Value) :
    (digitsOf mark base v).Local r s s' := by
  unfold digitsOf
  split
  · exact local_pure h (inRegion_str _)
  · exact local_fail h rfl

theorem magnitude_local (v : Value) : (magnitude v).Local r s s' := by
  unfold magnitude
  split
  · exact local_pure h (inRegion_float _)
  · exact local_pure h (inRegion_float _)
  · exact local_pure h (inRegion_nan _)
  · split
    · exact local_pure h (inRegion_intValue _)
    · exact local_fail h rfl

theorem plus_local (v w : Value) : (plus v w).Local r s s' := by
  unfold plus
  split
  · exact local_pure h (inRegion_intValue _)
  · exact local_newFloat h _
  · exact local_newFloat h _
  · exact local_newFloat h _
  · exact local_fail h rfl

/-- The least and the greatest of some values are among them. -/
theorem extremeOf_local (name : String) {pick : Store → Value → List Value → Except Fault Value}
    (hpick : ∀ {r : Region} {s s' : Store}, Alike r s s' → ∀ {v : Value} {rest : List Value},
      InRegion r v → InRegion r rest →
        pick s' v rest = pick s v rest ∧ ∀ best, pick s v rest = .ok best → InRegion r best)
    (hordinary : ∀ s v rest, Ordinary (pick s v rest)) (hargs : InRegion r args) :
    (extremeOf name pick args).Local r s s' := by
  have hlift : ∀ {r : Region} {s s' : Store}, Alike r s s' → ∀ {v : Value} {rest : List Value},
      InRegion r v → InRegion r rest →
        (Act.store >>= fun s => Act.lift (pick s v rest)).Local r s s' := by
    intro r s s' h v rest hv hrest
    obtain ⟨heq, hbest⟩ := hpick h hv hrest
    refine local_store ?_
    rw [heq]
    exact local_lift h hbest (hordinary s v rest)
  unfold extremeOf
  split <;> try simp only [inRegion_cons, inRegion_nil, and_true] at hargs
  · refine (items_local h hargs).bind fun o hitems => ?_
    split
    · exact local_fail o.alike rfl
    · simp only [inRegion_cons] at hitems
      exact hlift o.alike hitems.1 hitems.2
  · exact hlift h hargs.1 hargs.2
  · exact local_fail h rfl

theorem least_local (hargs : InRegion r args) :
    (extremeOf "min" Order.least args).Local r s s' := by
  have hnil : ∀ (s : Store) v, Order.least s v [] = .ok v := fun _ _ => rfl
  have hcons : ∀ (s : Store) v w rest, Order.least s v (w :: rest) =
      Order.less s w v >>= fun b => Order.least s (if b then w else v) rest := fun _ _ _ _ => rfl
  refine extremeOf_local h "min" ?_ (fun s v rest => ?_) hargs
  · intro r s s' h v rest hv hrest
    exact Alike.extreme hnil hcons (fun v w hv hw => h.less hw hv) hv hrest
  · exact Alike.extreme_ordinary hnil hcons (fun v w => Alike.less_ordinary w v) rest v

theorem greatest_local (hargs : InRegion r args) :
    (extremeOf "max" Order.greatest args).Local r s s' := by
  have hnil : ∀ (s : Store) v, Order.greatest s v [] = .ok v := fun _ _ => rfl
  have hcons : ∀ (s : Store) v w rest, Order.greatest s v (w :: rest) =
      Order.less s v w >>= fun b => Order.greatest s (if b then w else v) rest := fun _ _ _ _ => rfl
  refine extremeOf_local h "max" ?_ (fun s v rest => ?_) hargs
  · intro r s s' h v rest hv hrest
    exact Alike.extreme hnil hcons (fun v w hv hw => h.less hv hw) hv hrest
  · exact Alike.extreme_ordinary hnil hcons (fun v w => Alike.less_ordinary v w) rest v

theorem character_local (n : Int) : (character n).Local r s s' := by
  unfold character
  split_ifs
  · exact local_fail h rfl
  · exact local_fail h rfl
  · exact local_pure h (inRegion_str _)

omit h in
theorem spaced_local : ∀ {args : List Value} {r : Region} {s s' : Store}, Alike r s s' →
    InRegion r args → (spaced args).Local r s s'
  | [], _, _, _, h, _ => local_pure h (inRegion_string _)
  | [v], _, _, _, h, hargs => local_text h (inRegion_cons.1 hargs).1
  | v :: w :: rest, _, _, _, h, hargs => by
    rw [inRegion_cons] at hargs
    refine (local_text h hargs.1).bind fun o _ => ?_
    refine (spaced_local o.alike (hargs.2.mono o.grows)).bind fun o' _ => ?_
    exact local_pure o'.alike (inRegion_string _)

theorem callFunction_local (name : String) (hargs : InRegion r args) :
    (callFunction name args).Local r s s' := by
  refine local_store ?_
  split <;> try simp only [inRegion_cons, inRegion_nil, and_true] at hargs
  · exact Local.bind (length_local h hargs) fun o _ =>
      local_pure o.alike (inRegion_intValue _)
  · -- the items are compared in the store as it was before they were read
    refine Local.bind_after (items_local h hargs) (items_steps (R := Eq) _ s).symm
      fun halike hitems => ?_
    obtain ⟨heq, hsorted⟩ := h.sort hitems
    rw [heq]
    exact Local.bind (local_lift halike hsorted (Alike.sort_ordinary _)) fun o hdone =>
      local_new o.alike (inRegion_listObject.2 hdone)
  · refine Local.bind (spaced_local h hargs) fun o _ => ?_
    exact (local_print o.alike _).then_null
  · rw [h.view hargs]
    exact (local_written h _).bind fun o _ => local_pure o.alike (inRegion_str _)
  · rw [h.view hargs]
    exact (local_written h _).bind fun o _ => local_pure o.alike (inRegion_str _)
  · split
    iterate 3 exact local_pure h (inRegion_intValue _)
    rw [h.isKey hargs]
    split_ifs
    · exact local_pure h (inRegion_intValue _)
    · exact local_fail h rfl
  · exact Local.bind (local_text h hargs) fun o _ => local_pure o.alike (inRegion_str _)
  · exact magnitude_local h _
  · refine Local.bind_after (items_local h hargs) (items_steps (R := Eq) _ s).symm
      fun {items t'} halike hitems => ?_
    have heq : items.all s'.truthy = items.all s.truthy := by
      rw [Bool.eq_iff_iff, List.all_eq_true, List.all_eq_true]
      exact forall₂_congr fun v hv => by rw [h.truthy (inRegion_list.1 hitems v hv)]
    rw [heq]
    exact local_pure halike (inRegion_boolValue _)
  · refine Local.bind_after (items_local h hargs) (items_steps (R := Eq) _ s).symm
      fun {items t'} halike hitems => ?_
    have heq : items.any s'.truthy = items.any s.truthy := by
      rw [Bool.eq_iff_iff, List.any_eq_true, List.any_eq_true]
      exact exists_congr fun v => and_congr_right fun hv => by
        rw [h.truthy (inRegion_list.1 hitems v hv)]
    rw [heq]
    exact local_pure halike (inRegion_boolValue _)
  · refine Local.bind (items_local h hargs) fun o hitems => ?_
    exact local_foldlM o.alike hitems (inRegion_intValue 0) fun _ halike _ _ => plus_local halike _ _
  · exact least_local h hargs
  · exact greatest_local h hargs
  · rw [h.isCallable hargs]
    exact local_pure h (inRegion_boolValue _)
  iterate 3 exact digitsOf_local h _ _ _
  · split
    · exact character_local h _
    · exact local_fail h rfl
  · split
    · exact local_pure h (inRegion_intValue _)
    · exact local_fail h rfl
  · split
    · exact local_pure h (inRegion_intValue _)
    · exact local_fail h rfl
    · exact toInt_local h _
  · exact Attribute.get_local h hargs.1 _
  · exact Local.bind (Attribute.find?_local h hargs.1 _) fun o hfound =>
      local_pure o.alike (inRegion_getD hfound (hargs.2.2.mono o.grows))
  · exact Local.bind (Attribute.find?_local h hargs.1 _) fun o _ =>
      local_pure o.alike (inRegion_boolValue _)
  · exact (Attribute.set_local h hargs.1 hargs.2.2 _).then_null
  · rw [walkerName_eq h hargs]
    exact Local.bind (requireItems_local h hargs) fun o _ => made_local o.alike _
  · exact local_fail h rfl

end Builtin

end TemplateRecovery
