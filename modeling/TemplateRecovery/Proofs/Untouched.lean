import TemplateRecovery.Proofs.Attached
import TemplateRecovery.Proofs.Context

/-!
# What another binding leaves alone

A placeholder or a bound attribute can be bound to something else. Whatever does not show it is written
out and printed as before, however many new objects there are.

* `Store.Refilled` are the stores in which only one such object, the hole, is bound to something else.
* `Store.Meets` leads from a value to an object by everything that is shown of it.
* `Store.Refilled.view_eq` and `Store.Refilled.tree_eq` say that a value which does not lead to the hole
  is written out and printed as before.
-/

namespace TemplateRecovery

variable {o : Object} {id : ObjectId} {v b : Value}

/-- An object that is a placeholder as well, or a bound attribute of the same name. -/
def Object.Refills : Object → Object → Prop
  | .node ⟨.placeholder _ _, _⟩ _, .node ⟨.placeholder _ _, _⟩ _ => True
  | .morph (.attribute key _ _) _, .morph (.attribute key' _ _) _ => key' = key
  | _, _ => False

theorem Object.Refills.cases {o' : Object} (h : o.Refills o') :
    (∃ m p children added m' p' children' added', o = .node ⟨.placeholder m p, children⟩ added ∧
        o' = .node ⟨.placeholder m' p', children'⟩ added') ∨
    ∃ key v owner added v' owner' added', o = .morph (.attribute key v owner) added ∧
      o' = .morph (.attribute key v' owner') added' := by
  unfold Object.Refills at h
  split at h
  · exact .inl ⟨_, _, _, _, _, _, _, _, rfl, rfl⟩
  · subst h
    exact .inr ⟨_, _, _, _, _, _, _, rfl, rfl⟩
  · exact h.elim

namespace Store

/-- **A hole is bound to something else**: there may be new objects, and all others are as before. -/
structure Refilled (s t : Store) (hole : ObjectId) : Prop where
  keeps : ∀ id o, id ≠ hole → s.object? id = some o → t.object? id = some o
  refills : ∃ o o', s.object? hole = some o ∧ t.object? hole = some o' ∧ o.Refills o'

/-- An object is shown somewhere in a value. -/
def Meets (s : Store) (v : Value) (hole : ObjectId) : Prop :=
  ∃ id, v = .object id ∧ Relation.ReflTransGen s.Within id hole

variable {s t : Store} {hole : ObjectId}

theorem meets_self (s : Store) (hole : ObjectId) : s.Meets (.object hole) hole := ⟨hole, rfl, .refl⟩

theorem not_meets_of_mem {w : Value} (h : ¬ s.Meets (.object id) hole) (ho : s.object? id = some o)
    (hw : w ∈ s.contents o) : ¬ s.Meets w hole := by
  rintro ⟨b, rfl, hb⟩
  exact h ⟨id, rfl, .head ⟨o, ho, hw⟩ hb⟩

theorem not_meets_of_not_object (h : ∀ id, v ≠ .object id) : ¬ s.Meets v hole := by
  rintro ⟨id, rfl, -⟩
  exact h id rfl

theorem not_meets_of_contents (ho : s.object? id = some o) (hne : id ≠ hole)
    (h : ∀ w ∈ s.contents o, ¬ s.Meets w hole) : ¬ s.Meets (.object id) hole := by
  rintro ⟨_, ⟨⟩, hpath⟩
  rcases Relation.ReflTransGen.cases_head hpath with rfl | ⟨b, ⟨p, hp, hb⟩, hrest⟩
  · exact hne rfl
  · cases ho.symm.trans hp
    exact h _ hb ⟨b, rfl, hrest⟩

theorem ne_hole_of_not_meets (h : ¬ s.Meets (.object id) hole) : id ≠ hole := by
  rintro rfl
  exact h (s.meets_self id)

/-! ### What is shown of an object that misses the hole -/

namespace Refilled

variable (h : s.Refilled t hole)

include h

/-- An object that is there stays there, and keeps its kind. -/
theorem object? (ho : s.object? id = some o) :
    ∃ o', t.object? id = some o' ∧ (o' = o ∨ o.Refills o') := by
  by_cases hid : id = hole
  · subst hid
    obtain ⟨p, p', hp, hp', hkind⟩ := h.refills
    cases ho.symm.trans hp
    exact ⟨p', hp', .inr hkind⟩
  · exact ⟨o, h.keeps id o hid ho, .inl rfl⟩

theorem tagOf_eq (hb : s.Present b) : t.tagOf b = s.tagOf b := by
  cases b with
  | object id =>
    obtain ⟨o, ho⟩ := hb id rfl
    obtain ⟨o', ho', rfl | hkind⟩ := h.object? ho
    · exact Frozen.tagOf_frame rfl ho ho'
    · simp only [tagOf, asNode?, asObject?_of_object? ho, asObject?_of_object? ho']
      obtain ⟨_, _, _, _, _, _, _, _, rfl, rfl⟩ | ⟨_, _, _, _, _, _, _, rfl, rfl⟩ := hkind.cases
      · rfl
      · rfl
  | _ => rfl

theorem typeName_method {owner : Value} (howner : s.Present owner) (name : String) :
    t.typeName (.method owner name) = s.typeName (.method owner name) := by
  cases owner with
  | object id =>
    obtain ⟨o, ho⟩ := howner id rfl
    obtain ⟨o', ho', rfl | hkind⟩ := h.object? ho
    · simp only [typeName, ho, ho']
    · simp only [typeName, ho, ho']
      obtain ⟨_, _, _, _, _, _, _, _, rfl, rfl⟩ | ⟨_, _, _, _, _, _, _, rfl, rfl⟩ := hkind.cases
      · rfl
      · rfl
  | _ => rfl

theorem parentView_eq (hb : s.Present b) : t.parentView b = s.parentView b := by
  cases b with
  | object id =>
    obtain ⟨o, ho⟩ := hb id rfl
    obtain ⟨o', ho', rfl | hkind⟩ := h.object? ho
    · exact Frozen.parentView_frame rfl ho ho'
    · simp only [parentView, asObject?_of_object? ho, asObject?_of_object? ho']
      obtain ⟨_, _, _, _, _, _, _, _, rfl, rfl⟩ | ⟨_, _, _, _, _, _, _, rfl, rfl⟩ := hkind.cases
      · rfl
      · rfl
  | method owner name => exact congrArg (View.other · "") (h.typeName_method (show s.Present owner from hb) name)
  | _ => rfl

theorem viewScalar_eq (hv : s.Present v) : t.viewScalar v = s.viewScalar v := by
  cases v with
  | method owner name => exact congrArg (View.callable · _) (h.typeName_method (show s.Present owner from hv) name)
  | _ => rfl

theorem asObject?_eq (hv : s.Present v) (hmiss : ¬ s.Meets v hole) :
    t.asObject? v = s.asObject? v := by
  cases v with
  | object id =>
    obtain ⟨o, ho⟩ := hv id rfl
    rw [asObject?_of_object? ho,
      asObject?_of_object? (h.keeps id o (ne_hole_of_not_meets hmiss) ho)]
  | _ => rfl

theorem isPrinted_eq (hv : s.Present v) (hmiss : ¬ s.Meets v hole) :
    t.isPrinted v = s.isPrinted v := by
  rw [isPrinted, isPrinted, h.asObject?_eq hv hmiss]

theorem size_le : s.objects.size ≤ t.objects.size := by
  by_contra hlt
  have hid : (⟨t.objects.size⟩ : ObjectId).index < s.objects.size := not_le.1 hlt
  obtain ⟨o, ho⟩ := object?_eq_some_iff_lt.2 hid
  obtain ⟨o', ho', -⟩ := h.object? ho
  exact absurd (index_lt_of_object? ho') (lt_irrefl _)

end Refilled

theorem Closed.present_of_mem_backs (h : s.Closed) (ho : s.object? id = some o) (hb : b ∈ o.backs) :
    s.Present b :=
  h id o ho b (Object.mem_values_of_mem_backs hb)

/-- **A value that misses the hole is written out as before**, inside any open objects and however
deep one may look. -/
theorem Refilled.viewWithin_eq (h : s.Refilled t hole) (hclosed : s.Closed) {fuel fuel' depth : Nat}
    {opened : Opened} (hv : s.Present v) (hmiss : ¬ s.Meets v hole)
    (hopened : Trail s.Within s (opened.map (·.1)) v)
    (hfuel : s.objects.size < (opened.map (·.1)).length + fuel)
    (hfuel' : s.objects.size < (opened.map (·.1)).length + fuel') :
    t.viewWithin fuel' opened depth v = s.viewWithin fuel opened depth v := by
  induction fuel generalizing fuel' depth opened v with
  | zero =>
    obtain ⟨n, hn, -⟩ := hopened.exists_fuel ⟨0⟩ hfuel
    cases hn
  | succ fuel ih =>
    cases v with
    | object id =>
      obtain ⟨n, hn, hroom⟩ := hopened.exists_fuel id hfuel
      obtain ⟨n', rfl, hroom'⟩ := hopened.exists_fuel id hfuel'
      cases hn
      obtain ⟨o, ho⟩ := hv id rfl
      have ho' : t.object? id = some o := h.keeps id o (ne_hole_of_not_meets hmiss) ho
      by_cases hid : id ∈ opened.map (·.1)
      · obtain ⟨outer, houter⟩ : ∃ outer, opened.lookup id = some outer := by
          rw [← Option.ne_none_iff_exists', Ne, List.lookup_eq_none_iff]
          obtain ⟨p, hp, hpid⟩ := List.mem_map.1 hid
          intro hnone
          simpa [hpid] using hnone p hp
        rw [viewWithin, viewWithin, houter, ho, ho']
      · rw [Frozen.viewWithin_object ho hid, Frozen.viewWithin_object ho' hid]
        rw [viewObject_of_backs _ _ fun b hb =>
          ⟨h.tagOf_eq (hclosed.present_of_mem_backs ho hb),
            h.parentView_eq (hclosed.present_of_mem_backs ho hb)⟩]
        refine viewObject_congr_at fun w hw => ?_
        have hpresent := hclosed.contents ho hw
        have hmiss' := not_meets_of_mem hmiss ho hw
        have htrail : Trail s.Within s (((id, depth) :: opened).map (·.1)) w :=
          hopened.open hid ho fun _ hb => ⟨o, ho, hb ▸ hw⟩
        exact ⟨ih hpresent hmiss' htrail hroom hroom', ih hpresent hmiss' htrail hroom hroom'⟩
    | _ =>
      obtain ⟨n', rfl, -⟩ := hopened.exists_fuel ⟨0⟩ hfuel'
      exact h.viewScalar_eq hv

theorem Refilled.view_eq (h : s.Refilled t hole) (hclosed : s.Closed) (hv : s.Present v)
    (hmiss : ¬ s.Meets v hole) : t.view v = s.view v := by
  have hsize := h.size_le
  refine h.viewWithin_eq hclosed hv hmiss (trail_nil _ s v) ?_ ?_
  · simp only [List.map_nil, List.length_nil, viewFuel]
    omega
  · simp only [List.map_nil, List.length_nil, viewFuel]
    omega

/-! ### What is printed of an object that misses the hole -/

/-- A value that is there and from which the hole is not seen. -/
def Clear (s : Store) (hole : ObjectId) (v : Value) : Prop := s.Present v ∧ ¬ s.Meets v hole

theorem Clear.of_mem {w : Value} (h : s.Clear hole (.object id)) (hclosed : s.Closed)
    (ho : s.object? id = some o) (hw : w ∈ s.contents o) : s.Clear hole w :=
  ⟨hclosed.contents ho hw, not_meets_of_mem h.2 ho hw⟩

theorem clear_inherited (hclosed : s.Closed) : s.Inherited (s.Clear hole) :=
  fun _ _ h ho _ hw => h.of_mem hclosed ho hw

/-! ### Containers of two stores -/

theorem treedItems_congr (held : Held (List Value))
    (h : ∀ v ∈ held.holder, t.asObject? v = s.asObject? v) :
    t.treedItems held = s.treedItems held ∧ t.wordedItems held = s.wordedItems held := by
  cases held with
  | own items => exact ⟨rfl, rfl⟩
  | shared v => simp only [treedItems, wordedItems, h v (List.mem_singleton_self v), and_self]

theorem treedEntries_congr (held : Held Entries)
    (h : ∀ v ∈ held.holder, t.asObject? v = s.asObject? v) :
    t.treedEntries held = s.treedEntries held ∧ t.wordedEntries held = s.wordedEntries held := by
  cases held with
  | own entries => exact ⟨rfl, rfl⟩
  | shared v =>
    simp only [treedEntries, wordedEntries, entries?, h v (List.mem_singleton_self v), and_self]

theorem treedCall_congr (c : HelperCall) (h : ∀ v ∈ c.holders, t.asObject? v = s.asObject? v) :
    t.treedCall c = s.treedCall c ∧ t.wordedCall c = s.wordedCall c := by
  obtain ⟨hparams, hparams'⟩ := treedItems_congr c.params fun v hv => h v (List.mem_append_left _ hv)
  obtain ⟨hhash, hhash'⟩ := treedEntries_congr c.hash fun v hv => h v (List.mem_append_right _ hv)
  simp only [treedCall, wordedCall, hparams, hparams', hhash, hhash', and_self]

/-- An object has the same parts in two stores with the same containers. -/
theorem treed_congr (h : ∀ v ∈ o.holders, t.asObject? v = s.asObject? v) :
    t.treed o = s.treed o ∧ t.worded o = s.worded o := by
  cases o with
  | expression e =>
    cases e with
    | literal v | path p => exact ⟨rfl, rfl⟩
    | concat parts => exact treedItems_congr parts h
    | subexpr c => exact treedCall_congr c h
  | morph m added =>
    cases m with
    | inline c | element c => exact treedCall_congr c h
    | «attribute» key value owner | content v => exact ⟨rfl, rfl⟩
    | block c primary alternate =>
      obtain ⟨hcall, hcall'⟩ := treedCall_congr c h
      exact ⟨congrArg (primary :: alternate :: ·) hcall, hcall'⟩
  | node n added =>
    obtain ⟨shape, children⟩ := n
    cases shape with
    | fragment => exact treedItems_congr children h
    | element tag ns attributes bound modifiers =>
      simp only [Object.holders, List.mem_append] at h
      obtain ⟨ha, ha'⟩ := treedEntries_congr attributes fun v hv => h v (.inl (.inl (.inl hv)))
      obtain ⟨hb, hb'⟩ := treedItems_congr bound fun v hv => h v (.inl (.inl (.inr hv)))
      obtain ⟨hm, hm'⟩ := treedItems_congr modifiers fun v hv => h v (.inl (.inr hv))
      obtain ⟨hc, hc'⟩ := treedItems_congr children fun v hv => h v (.inr hv)
      simp only [treed, worded, ha, ha', hb, hb', hm, hm', hc, hc', and_self]
    | text v | comment v | placeholder morph parent => exact ⟨rfl, rfl⟩
  | _ => exact ⟨rfl, rfl⟩

theorem passed_congr (hholder : ∀ v ∈ o.holders, t.asObject? v = s.asObject? v)
    (hworded : ∀ v ∈ s.worded o, t.isPrinted v = s.isPrinted v) : t.passed o = s.passed o := by
  obtain ⟨htreed, hworded'⟩ := treed_congr hholder
  rw [passed, passed, htreed, hworded', List.filter_congr hworded]

/-! ### The parts of a tree from which the hole is not seen -/

theorem tree_of_not_part (ho : s.object? id = some o) (hpart : o.isPart = false) :
    s.tree (.object id) = s.view (.object id) := by
  rw [tree, treeWithin_object ho (by simp), hpart]
  rfl

theorem Refilled.tree_of_not_object (h : s.Refilled t hole) (hclosed : s.Closed)
    (hv : s.Clear hole v) (hobject : ∀ id, v ≠ .object id) : t.tree v = s.tree v := by
  have hnone : ∀ u : Store, u.asObject? v = none := by
    intro u
    cases v with
    | object id => exact absurd rfl (hobject id)
    | _ => rfl
  rw [Store.tree_of_not_object (hnone t), Store.tree_of_not_object (hnone s), h.view_eq hclosed hv.1 hv.2]

/-- **A finite part that misses the hole is printed as before.** -/
theorem Refilled.tree_eq (h : s.Refilled t hole) (hclosed : s.Closed) (hv : s.Clear hole v)
    (hfinite : s.Finite v) : t.Finite v ∧ t.tree v = s.tree v := by
  by_cases hobject : ∀ id, v ≠ .object id
  · exact ⟨finite_of_not_object hobject, h.tree_of_not_object hclosed hv hobject⟩
  push Not at hobject
  obtain ⟨id, rfl⟩ := hobject
  have hacc := hfinite id rfl
  induction hacc with
  | intro id _ ih =>
    obtain ⟨o, ho⟩ := hv.1 id rfl
    have ho' : t.object? id = some o := h.keeps id o (ne_hole_of_not_meets hv.2) ho
    have hcontents : ∀ w ∈ s.contents o, s.Clear hole w := fun w hw => hv.of_mem hclosed ho hw
    have hholder : ∀ v ∈ o.holders, t.asObject? v = s.asObject? v := by
      intro v hv
      have hclear := hcontents v (mem_contents_of_holder s hv)
      exact h.asObject?_eq hclear.1 hclear.2
    have hclear := (clear_inherited hclosed).parts hcontents
    have hworded : ∀ v ∈ s.worded o, t.isPrinted v = s.isPrinted v := fun v hv =>
      have hclear := hclear v (List.mem_append_right _ hv)
      h.isPrinted_eq hclear.1 hclear.2
    have hparts : ∀ w ∈ s.passed o, t.Finite w ∧ t.tree w = s.tree w := by
      intro w hw
      have hw' : s.Clear hole w := by
        refine hclear w ?_
        rcases List.mem_append.1 hw with hw | hw
        · exact List.mem_append_left _ hw
        · exact List.mem_append_right _ (List.mem_filter.1 hw).1
      by_cases hobject : ∀ id, w ≠ .object id
      · exact ⟨finite_of_not_object hobject, h.tree_of_not_object hclosed hw' hobject⟩
      push Not at hobject
      obtain ⟨b, rfl⟩ := hobject
      exact ih b ⟨o, ho, hw⟩ hw' (hfinite.of_mem ho hw)
    have hfinite' : t.Finite (.object id) := finite_of_parts ho' fun w hw => by
      rw [passed_congr hholder hworded] at hw
      exact (hparts w hw).1
    refine ⟨hfinite', ?_⟩
    cases hpart : o.isPart with
    | false => rw [tree_of_not_part ho hpart, tree_of_not_part ho' hpart, h.view_eq hclosed hv.1 hv.2]
    | true =>
      rw [hfinite.tree_object ho hpart, hfinite'.tree_object ho' hpart]
      refine treeObject_congr hholder (fun w hw => (hparts w (List.mem_append_left _ hw)).2) ?_
      intro w hw
      have hw' := hclear w (List.mem_append_right _ hw)
      rw [shown, shown, hworded w hw]
      split_ifs with hprinted
      · exact (hparts w (List.mem_append_right _ (List.mem_filter.2 ⟨hw, hprinted⟩))).2
      · exact h.view_eq hclosed hw'.1 hw'.2

theorem Refilled.shown_eq (h : s.Refilled t hole) (hclosed : s.Closed) (hv : s.Clear hole v)
    (hfinite : s.isPrinted v = true → s.Finite v) : t.shown v = s.shown v := by
  rw [shown, shown, h.isPrinted_eq hv.1 hv.2]
  split_ifs with hprinted
  · exact (h.tree_eq hclosed hv (hfinite hprinted)).2
  · exact h.view_eq hclosed hv.1 hv.2

end Store

end TemplateRecovery
