import TemplateRecovery.Proofs.Unfinished
import TemplateRecovery.Proofs.Untouched

/-!
# One place in a tree

A placeholder that stands in one place of a tree, or a bound attribute that does, is a hole in its
text: whatever it is bound to, the text before the hole and the text after it are the same.

* `Store.Once` says that a hole stands in one place, so many steps deep, and nowhere else.
* `Store.Once.context` finds the place of the hole, the same for everything that it may be bound to.
* `text_around_hole` is what this means for the text.
-/

namespace TemplateRecovery

open Store View Object

variable {id : ObjectId} {w v m parent key value owner : Value} {held children : Held (List Value)}
  {added added' : Fields} {text : String} {x : View}

namespace Store

variable {s t : Store} {hole : ObjectId}

/-- An object holds a value as a child, a morph or a branch, so many steps deeper, and from everything
else that it prints the hole is not seen. -/
inductive HoldsOnly (s : Store) (hole id : ObjectId) : Nat → Value → Prop
  | child {children : Held (List Value)} {added : Fields} {xs ys : List Value} {w : Value}
      (ho : s.object? id = some (.node ⟨.fragment, children⟩ added))
      (hkids : s.heldItems? children = some (xs ++ w :: ys))
      (hrest : ∀ v ∈ xs ++ ys, ¬ s.Meets v hole) : HoldsOnly s hole id 0 w
  | nested {tag ns : Value} {attributes : Held Entries} {bound modifiers children : Held (List Value)}
      {added : Fields} {xs ys : List Value} {w : Value}
      (ho : s.object? id = some (.node ⟨.element tag ns attributes bound modifiers, children⟩ added))
      (hkids : s.heldItems? children = some (xs ++ w :: ys))
      (hrest : ∀ v ∈ tag :: (attributes.paired ++ (bound.listed ++ (modifiers.listed ++ (xs ++ ys)))),
        ¬ s.Meets v hole) : HoldsOnly s hole id 1 w
  | morph {w parent : Value} {children : Held (List Value)} {added : Fields}
      (ho : s.object? id = some (.node ⟨.placeholder w parent, children⟩ added)) :
      HoldsOnly s hole id 0 w
  | primary {call : HelperCall} {w alternate : Value} {added : Fields}
      (ho : s.object? id = some (.morph (.block call w alternate) added))
      (hrest : ∀ v ∈ alternate :: call.contents, ¬ s.Meets v hole) : HoldsOnly s hole id 1 w
  | alternate {call : HelperCall} {primary w : Value} {added : Fields}
      (ho : s.object? id = some (.morph (.block call primary w) added))
      (hrest : ∀ v ∈ primary :: call.contents, ¬ s.Meets v hole) : HoldsOnly s hole id 1 w

/-- An element has the hole as a bound attribute, and it is seen from nothing else that it prints. -/
def BindsOnly (s : Store) (hole id : ObjectId) : Prop :=
  ∃ tag ns attributes bound modifiers children added xs ys,
    s.object? id = some (.node ⟨.element tag ns attributes bound modifiers, children⟩ added) ∧
      s.heldItems? bound = some (xs ++ .object hole :: ys) ∧ (s.asAttribute? (.object hole)).isSome ∧
      ∀ v ∈ tag :: (attributes.paired ++ (modifiers.listed ++ (children.listed ++ (xs ++ ys)))),
        ¬ s.Meets v hole

/-- **A hole stands in one place**, so many steps deep: it is reached through children, morphs and
branches, at last perhaps as a bound attribute, and is not seen from anything beside this way. -/
inductive Once (s : Store) (hole : ObjectId) : Value → Nat → Prop
  | here : Once s hole (.object hole) 0
  | bound {id : ObjectId} (hid : s.BindsOnly hole id) : Once s hole (.object id) 0
  | step {id : ObjectId} {j k : Nat} {w : Value} (hne : id ≠ hole) (hid : s.HoldsOnly hole id j w)
      (hw : Once s hole w k) : Once s hole (.object id) (j + k)

/-! ### The place of the hole -/

/-- A container is the same whatever the hole is bound to. -/
theorem Refilled.asObject?_of_array? (h : s.Refilled t hole) (hv : (s.array? v).isSome) :
    t.asObject? v = s.asObject? v := by
  obtain ⟨items, hitems⟩ := Option.isSome_iff_exists.1 hv
  obtain ⟨id, rfl, ho | ho⟩ := array?_eq_some hitems
  · obtain ⟨o', ho', rfl | hkind⟩ := h.object? ho
    · rw [asObject?_of_object? ho, asObject?_of_object? ho']
    · exact hkind.elim
  · obtain ⟨o', ho', rfl | hkind⟩ := h.object? ho
    · rw [asObject?_of_object? ho, asObject?_of_object? ho']
    · exact hkind.elim

/-- The items of a container that an object holds are there. -/
theorem Closed.present_of_heldItems? (hclosed : s.Closed) {o : Object} (ho : s.object? id = some o)
    (hsub : ∀ v ∈ held.listed, v ∈ o.values) {kids : List Value}
    (hkids : s.heldItems? held = some kids) : ∀ v ∈ kids, s.Present v := by
  cases held with
  | own items =>
    cases hkids
    exact fun v hv => hclosed id o ho v (hsub v hv)
  | shared v =>
    obtain ⟨c, rfl, hc | hc⟩ := array?_eq_some hkids
    · exact hclosed c _ hc
    · exact hclosed c _ hc

section Parts

variable {id : ObjectId} {o : Object} {w : Value} {rest xs ys bs ms cs : List Value}

theorem Closed.clear_rest (hclosed : s.Closed) (ho : s.object? id = some o)
    (hsub : ∀ v ∈ held.listed, v ∈ o.values) (hkids : s.heldItems? held = some (xs ++ w :: ys))
    (hrest : ∀ v ∈ xs ++ ys, ¬ s.Meets v hole) : ∀ v ∈ xs ++ ys, s.Clear hole v := by
  refine fun v hv => ⟨hclosed.present_of_heldItems? ho hsub hkids v ?_, hrest v hv⟩
  simp only [List.mem_append, List.mem_cons] at hv ⊢
  tauto

/-- A container from which the hole is seen through one item at most, and the rest of its items. -/
structure Sparing (s : Store) (hole : ObjectId) (rest : List Value) (held : Held (List Value)) :
    Prop where
  clear : ∀ p ∈ rest ++ s.wordedItems held, s.Clear hole p
  holders : ∀ v ∈ held.holder, s.Clear hole v ∨ (s.array? v).isSome

/-- An object from which the hole is seen through one part at most, and the rest of its parts. -/
structure Parting (s : Store) (hole : ObjectId) (rest : List Value) (o : Object) : Prop where
  clear : ∀ p ∈ rest ++ s.worded o, s.Clear hole p
  holders : ∀ v ∈ o.holders, s.Clear hole v ∨ (s.array? v).isSome

theorem sparing_of_clear (hclosed : s.Closed) (h : ∀ v ∈ held.listed, s.Clear hole v) :
    s.Sparing hole (s.treedItems held) held where
  clear := (clear_inherited hclosed).items held h
  holders v hv := .inl (h v (Held.mem_listed_of_holder hv))

theorem sparing_of_kids (hkids : s.heldItems? held = some (xs ++ w :: ys))
    (h : ∀ v ∈ xs ++ ys, s.Clear hole v) : s.Sparing hole (xs ++ ys) held where
  clear := by rwa [wordedItems_of_heldItems? hkids, List.append_nil]
  holders v hv := by
    cases held with
    | own items => cases hv
    | shared u =>
      cases List.mem_singleton.1 hv
      exact .inr (Option.isSome_iff_exists.2 ⟨_, hkids⟩)

theorem parting_element (hclosed : s.Closed) {tag : Value} (ns : Value) {attributes : Held Entries}
    {bound modifiers : Held (List Value)} (htag : s.Clear hole tag)
    (hattributes : ∀ v ∈ attributes.paired, s.Clear hole v) (hbound : s.Sparing hole bs bound)
    (hmodifiers : s.Sparing hole ms modifiers) (hchildren : s.Sparing hole cs children) :
    s.Parting hole (bs ++ ms ++ cs)
      (.node ⟨.element tag ns attributes bound modifiers, children⟩ added) where
  clear := by
    have hentries := (clear_inherited hclosed).entries attributes hattributes
    have hb := hbound.clear
    have hm := hmodifiers.clear
    have hc := hchildren.clear
    simp only [worded, List.forall_mem_append, List.forall_mem_cons] at hentries hb hm hc ⊢
    tauto
  holders v hv := by
    simp only [holders, List.mem_append] at hv
    rcases hv with ((hv | hv) | hv) | hv
    · exact .inl (hattributes v (Held.mem_paired_of_holder hv))
    · exact hbound.holders v hv
    · exact hmodifiers.holders v hv
    · exact hchildren.holders v hv

theorem parting_block (hclosed : s.Closed) {call : HelperCall} {primary alternate branch : Value}
    (hrest : ∀ v ∈ branch :: call.contents, s.Clear hole v) :
    s.Parting hole (branch :: s.treedCall call) (.morph (.block call primary alternate) added) where
  clear := by
    rw [List.forall_mem_cons] at hrest
    exact List.forall_mem_cons.2 ⟨hrest.1, (clear_inherited hclosed).call call hrest.2⟩
  holders v hv := .inl (hrest v (List.mem_cons_of_mem _ (HelperCall.mem_contents_of_holder hv)))

/-- **A step of the way to the hole**: what the object prints is made in one way of the part that
leads there, whatever the hole is bound to. -/
theorem Parting.context {kind : View → Prop} {j : Nat} (h : s.Parting hole rest o)
    (hplaces : s.Places o w rest kind j) (hclosed : s.Closed) (hne : id ≠ hole)
    (ho : s.object? id = some o) (hfinite : s.Finite (.object id)) :
    ∃ F, Context kind F j ∧ ∀ t, s.Refilled t hole → t.Finite w →
      t.Finite (.object id) ∧ t.tree (.object id) = F (t.tree w) := by
  obtain ⟨F, hF, heq⟩ := hplaces.frames
  refine ⟨F, hF, fun t ht hw => ?_⟩
  have hworded : ∀ p ∈ s.worded o, s.Clear hole p := (List.forall_mem_append.1 h.clear).2
  have hholders : ∀ v ∈ o.holders, t.asObject? v = s.asObject? v := by
    intro v hv
    rcases h.holders v hv with hclear | harray
    · exact ht.asObject?_eq hclear.1 hclear.2
    · exact ht.asObject?_of_array? harray
  have hrest : ∀ p ∈ rest, t.Finite p ∧ t.tree p = s.tree p := fun p hp =>
    ht.tree_eq hclosed (h.clear p (List.mem_append_left _ hp))
      (hfinite.of_mem ho (List.mem_append_left _ ((hplaces.mem p).2 (.inr hp))))
  have hfinite' : t.Finite (.object id) := by
    refine finite_of_parts (ht.keeps id o hne ho) fun p hp => ?_
    rw [passed_congr hholders fun v hv => ht.isPrinted_eq (hworded v hv).1 (hworded v hv).2] at hp
    rcases List.mem_append.1 hp with htreed | hshown
    · rcases (hplaces.mem p).1 htreed with rfl | hmem
      · exact hw
      · exact (hrest p hmem).1
    · exact (ht.tree_eq hclosed (hworded p (List.mem_filter.1 hshown).1) (hfinite.of_mem ho hp)).1
  refine ⟨hfinite', (hfinite'.tree_object (ht.keeps id o hne ho) hplaces.isPart).trans ?_⟩
  refine heq t t.tree t.shown hholders (fun p hp => (hrest p hp).2) fun p hp => ?_
  exact ht.shown_eq hclosed (hworded p hp) fun hprinted =>
    hfinite.of_mem ho (List.mem_append_right _ (List.mem_filter.2 ⟨hp, hprinted⟩))

end Parts

theorem HoldsOnly.parting {j : Nat} (h : s.HoldsOnly hole id j w) (hclosed : s.Closed) :
    ∃ o rest, s.object? id = some o ∧ s.Places o w rest View.Present j ∧ s.Parting hole rest o := by
  cases h with
  | child ho hkids hrest =>
    have hclear := hclosed.clear_rest ho (by simp +contextual [values]) hkids hrest
    have hsparing := sparing_of_kids hkids hclear
    exact ⟨_, _, ho, places_child hkids, hsparing.clear, hsparing.holders⟩
  | nested ho hkids hrest =>
    have hvalues := hclosed _ _ ho
    simp only [List.forall_mem_cons, List.forall_mem_append, values, Shape.values,
      Shape.contents] at hrest hvalues
    have hclear := hclosed.clear_rest ho (by simp +contextual [values]) hkids
      (List.forall_mem_append.2 hrest.2.2.2.2)
    exact ⟨_, _, ho, places_nested _ _ _ hkids, parting_element hclosed _ ⟨by tauto, hrest.1⟩
      (fun v hv => ⟨by tauto, hrest.2.1 v hv⟩)
      (sparing_of_clear hclosed fun v hv => ⟨by tauto, hrest.2.2.1 v hv⟩)
      (sparing_of_clear hclosed fun v hv => ⟨by tauto, hrest.2.2.2.1 v hv⟩)
      (sparing_of_kids hkids hclear)⟩
  | morph ho =>
    exact ⟨_, _, ho, places_morph s _ _, by simp [worded], by simp [holders]⟩
  | primary ho hrest =>
    refine ⟨_, _, ho, places_primary s _ _ _, parting_block hclosed fun p hp =>
      ⟨hclosed _ _ ho p ?_, hrest p hp⟩⟩
    simp only [values, Morph.values, List.mem_append, List.mem_cons] at hp ⊢
    tauto
  | alternate ho hrest =>
    refine ⟨_, _, ho, places_alternate s _ _ _, parting_block hclosed fun p hp =>
      ⟨hclosed _ _ ho p ?_, hrest p hp⟩⟩
    simp only [values, Morph.values, List.mem_append, List.mem_cons] at hp ⊢
    tauto

theorem BindsOnly.parting (h : s.BindsOnly hole id) (hclosed : s.Closed) :
    id ≠ hole ∧ ∃ o rest, s.object? id = some o ∧
      s.Places o (.object hole) rest IsAttribute 0 ∧ s.Parting hole rest o := by
  obtain ⟨tag, ns, attributes, bound, modifiers, children, added, xs, ys, ho, hws, hhole, hrest⟩ := h
  have hne : id ≠ hole := by
    rintro rfl
    simp [asAttribute?, asObject?_of_object? ho] at hhole
  have hvalues := hclosed _ _ ho
  simp only [List.forall_mem_cons, List.forall_mem_append, values, Shape.values,
    Shape.contents] at hrest hvalues
  have hclear := hclosed.clear_rest ho
    (by simp +contextual [values, Shape.values, Shape.contents]) hws
    (List.forall_mem_append.2 hrest.2.2.2.2)
  exact ⟨hne, _, _, ho, places_bound tag ns attributes hws,
    parting_element hclosed ns ⟨by tauto, hrest.1⟩ (fun v hv => ⟨by tauto, hrest.2.1 v hv⟩)
      (sparing_of_kids hws hclear)
      (sparing_of_clear hclosed fun v hv => ⟨by tauto, hrest.2.2.1 v hv⟩)
      (sparing_of_clear hclosed fun v hv => ⟨by tauto, hrest.2.2.2.1 v hv⟩)⟩

theorem BindsOnly.isSome (h : s.BindsOnly hole id) : (s.asAttribute? (.object hole)).isSome := by
  obtain ⟨_, _, _, _, _, _, _, _, _, -, -, hhole, -⟩ := h
  exact hhole

theorem Refilled.asAttribute?_isSome (h : s.Refilled t hole)
    (hhole : (s.asAttribute? (.object hole)).isSome) : (t.asAttribute? (.object hole)).isSome := by
  obtain ⟨o, o', ho, ho', hkind⟩ := h.refills
  unfold asAttribute? at hhole ⊢
  rw [asObject?_of_object? ho] at hhole
  rw [asObject?_of_object? ho']
  obtain ⟨_, _, _, _, _, _, _, _, rfl, rfl⟩ | ⟨_, _, _, _, _, _, _, rfl, rfl⟩ := hkind.cases
  · cases hhole
  · rfl

/-- **The place of a hole** is the same for everything that it may be bound to. -/
theorem Once.context {k : Nat} (h : s.Once hole v k) (hclosed : s.Closed) (hfinite : s.Finite v) :
    ∃ kind F, Context kind F k ∧ ∀ t, s.Refilled t hole → t.Finite (.object hole) →
      kind (t.tree (.object hole)) ∧ t.Finite v ∧ t.tree v = F (t.tree (.object hole)) := by
  induction h with
  | here =>
    refine ⟨_, _, context_id, fun t ht hw => ⟨hw.tree_ne_null ?_, hw, rfl⟩⟩
    obtain ⟨o, o', ho, ho', hkind⟩ := ht.refills
    rw [isPrinted, asObject?_of_object? ho']
    obtain ⟨_, _, _, _, _, _, _, _, rfl, rfl⟩ | ⟨_, _, _, _, _, _, _, rfl, rfl⟩ := hkind.cases
    · rfl
    · rfl
  | bound hid =>
    obtain ⟨hne, o, rest, ho, hplaces, hparting⟩ := hid.parting hclosed
    obtain ⟨F, hF, heq⟩ := hparting.context hplaces hclosed hne ho hfinite
    exact ⟨_, F, hF, fun t ht hw =>
      ⟨hw.isAttribute_tree (ht.asAttribute?_isSome hid.isSome), heq t ht hw⟩⟩
  | step hne hid _ ih =>
    obtain ⟨o, rest, ho, hplaces, hparting⟩ := hid.parting hclosed
    obtain ⟨F, hF, heq⟩ := hparting.context hplaces hclosed hne ho hfinite
    obtain ⟨kind, G, hG, heq'⟩ := ih (hfinite.of_mem ho hplaces.mem_passed)
    refine ⟨kind, F ∘ G, hF.comp hG, fun t ht hw => ?_⟩
    obtain ⟨hkind, hfinite', htree⟩ := heq' t ht hw
    obtain ⟨hfinite'', htree'⟩ := heq t ht hfinite'
    exact ⟨hkind, hfinite'', by rw [htree', htree, Function.comp_apply]⟩

theorem Finite.tree_placeholder (h : s.Finite (.object hole))
    (ho : s.object? hole = some (.node ⟨.placeholder m parent, children⟩ added)) :
    s.tree (.object hole) = .placeholder (s.tree m) .null .null := by
  rw [h.tree_object ho rfl]
  rfl

theorem Finite.tree_attribute (h : s.Finite (.object hole))
    (ho : s.object? hole = some (.morph (.attribute key value owner) added)) :
    s.tree (.object hole) = .attribute (s.shown key) (s.tree value) .null := by
  rw [h.tree_object ho rfl]
  rfl

theorem finite_attribute {key : String}
    (ho : s.object? hole = some (.morph (.attribute (.str key) value owner) added))
    (hvalue : s.Finite value) : s.Finite (.object hole) := by
  refine finite_of_treed ho (fun w hw => ?_) fun w hw => ?_
  · rwa [List.mem_singleton.1 hw]
  · rw [List.mem_singleton.1 hw]
    rfl

/-- What the hole was and what it is go together. -/
theorem Refilled.refills_of {o o' : Object} (h : s.Refilled t hole) (ho : s.object? hole = some o)
    (ho' : t.object? hole = some o') : o.Refills o' := by
  obtain ⟨_, _, hfound, hfound', hkind⟩ := h.refills
  cases ho.symm.trans hfound
  cases ho'.symm.trans hfound'
  exact hkind

theorem viewObject_ne_str (f : Nat → Value → View) (depth : Nat) (o : Object) (text : String) :
    s.viewObject f depth o ≠ .str text := by
  cases o with
  | expression e => cases e <;> simp [viewObject]
  | morph m added => cases m <;> simp [viewObject]
  | node n added =>
    obtain ⟨shape, children⟩ := n
    cases shape <;> simp [viewObject]
  | _ => simp [viewObject]

theorem eq_str_of_shown (h : s.shown v = .str text) : v = .str text := by
  cases v with
  | object id =>
    cases ho : s.object? id with
    | none =>
      simp [shown, isPrinted, asObject?, ho, view, viewFuel, viewWithin] at h
    | some o =>
      unfold shown at h
      split_ifs at h with hprinted
      · have hpart := isPart_of_isPrinted hprinted ho
        rw [tree, treeWithin_object ho (by simp), if_pos hpart] at h
        have hlabel := congrArg (fun x => x.label?.isSome) h
        cases (isSome_label?_treeObject hpart _ _).symm.trans hlabel
      · rw [view, viewFuel, Frozen.viewWithin_object ho (by simp)] at h
        exact absurd h (viewObject_ne_str _ _ o text)
  | str found =>
    cases h
    rfl
  | _ => cases h

end Store

/-! ### The text around the hole -/

theorem View.ne_null_of_render {step indent : Width} (h : x.render step indent = .ok text) :
    x ≠ .null := by
  rintro rfl
  cases h

theorem View.ne_null_of_inlineText (h : x.inlineText = .ok text) : x ≠ .null := by
  rintro rfl
  cases h

theorem textOf_ok_iff {s : Store} {f : View → Except Fault String} :
    Method.textOf v f s = .ok (.str text) s ↔ f (s.tree v) = .ok text := by
  unfold Method.textOf
  rw [Act.bind_store]
  cases f (s.tree v) with
  | ok found => simp [Act.lift, bind, EStateM.bind, pure, EStateM.pure]
  | error fault =>
    constructor
    · intro h
      cases h
    · intro h
      cases h

theorem View.stringOnly_eq_ok (h : stringOnly x = .ok text) : x = .str text := by
  unfold stringOnly at h
  split at h
  · cases h
    rfl
  · cases h

/-- What the hole prints stands between two texts that do not depend on it. -/
theorem Store.Once.text_around {s t₀ : Store} {hole : ObjectId} {root : Value} {k : Nat} {indent : Int}
    {step : Option Int} (honce : s.Once hole root k) (hclosed : s.Closed) (hfinite : s.Finite root)
    (ht₀ : s.Refilled t₀ hole) (hfinite₀ : t₀.Finite (.object hole))
    (hprint₀ : Method.printAt root (.int indent) (stepValue step) t₀ = .ok (.str text) t₀) :
    ∃ before after piece₀, (t₀.tree (.object hole)).render (.ofInt (stepAmount step))
        (.ofInt (indent + stepAmount step * k)) = .ok piece₀ ∧
      ∀ t, s.Refilled t hole → t.Finite (.object hole) → ∀ piece,
        (t.tree (.object hole)).render (.ofInt (stepAmount step))
          (.ofInt (indent + stepAmount step * k)) = .ok piece →
        Method.printAt root (.int indent) (stepValue step) t =
          .ok (.str (before ++ piece ++ after)) t := by
  obtain ⟨kind, F, hF, hcontext⟩ := honce.context hclosed hfinite
  obtain ⟨hkind₀, -, htree₀⟩ := hcontext t₀ ht₀ hfinite₀
  rw [printAt_ok_iff, htree₀] at hprint₀
  obtain ⟨before, piece₀, after, hpiece₀, -, hother⟩ :=
    hF.frames (stepAmount step) indent _ text hkind₀ hprint₀
  refine ⟨before, after, piece₀, hpiece₀, fun t ht hhole piece hpiece => ?_⟩
  obtain ⟨hkind, -, htree⟩ := hcontext t ht hhole
  rw [printAt_ok_iff, htree]
  exact hother _ _ hkind hpiece

/-- **The text around a hole does not depend on what is in it**: it is the same for everything to
which the placeholder, or the bound attribute, may be bound. -/
theorem text_around_hole {s : Store} (hclosed : s.Closed) {root : Value} (hfinite : s.Finite root)
    {hole : ObjectId} {k : Nat} (honce : s.Once hole root k) (indent : Int) (step : Option Int)
    (hrest : ∃ t text, s.Refilled t hole ∧ t.Finite (.object hole) ∧
      Method.printAt root (.int indent) (stepValue step) t = .ok (.str text) t) :
    ∃ before after, ∀ t, s.Refilled t hole →
      (∀ m parent children added piece,
        t.object? hole = some (.node ⟨.placeholder m parent, children⟩ added) → t.Finite m →
        Method.printAt m (.int (indent + stepAmount step * k)) (stepValue step) t =
          .ok (.str piece) t →
        Method.printAt root (.int indent) (stepValue step) t =
          .ok (.str (before ++ piece ++ after)) t) ∧
      ∀ key value owner added piece,
        t.object? hole = some (.morph (.attribute key value owner) added) → t.Finite value →
        Method.textOf value View.inlineText t = .ok (.str piece) t →
        Method.printAt root (.int indent) (stepValue step) t =
          .ok (.str (before ++ piece ++ after)) t := by
  obtain ⟨t₀, text, ht₀, hfinite₀, hprint₀⟩ := hrest
  obtain ⟨before, after, piece₀, hpiece₀, haround⟩ :=
    honce.text_around hclosed hfinite ht₀ hfinite₀ hprint₀
  have hjoin : ∀ front piece : String,
      before ++ front ++ piece ++ after = before ++ (front ++ piece) ++ after := by
    simp only [String.append_assoc, implies_true]
  obtain ⟨o, o₀, ho, ho₀, hrefills⟩ := ht₀.refills
  obtain ⟨_, _, _, _, _, _, _, _, rfl, rfl⟩ | ⟨name, _, _, _, _, _, _, rfl, rfl⟩ := hrefills.cases
  -- The margin of a placeholder belongs to the text before the hole, as does the name of an attribute.
  · rw [hfinite₀.tree_placeholder ho₀, render, placeholderOf_eq_ok_iff] at hpiece₀
    obtain ⟨-, margin, hmargin, -⟩ := hpiece₀
    refine ⟨before ++ margin, after, fun t ht => ⟨fun m parent children added piece ho' hm hpiece => ?_,
      fun key value owner added piece ho' => (ht.refills_of ho ho').elim⟩⟩
    have hhole := finite_placeholder ho' hm
    rw [printAt_ok_iff] at hpiece
    rw [hjoin]
    refine haround t ht hhole _ ?_
    rw [hhole.tree_placeholder ho', render, placeholderOf_eq_ok_iff]
    exact ⟨ne_null_of_render hpiece, margin, hmargin, piece, hpiece, rfl⟩
  · rw [hfinite₀.tree_attribute ho₀, render, attributeOf_eq_ok_iff] at hpiece₀
    obtain ⟨-, key, hkey, -⟩ := hpiece₀
    cases eq_str_of_shown (stringOnly_eq_ok hkey)
    refine ⟨before ++ (key ++ "="), after, fun t ht => ⟨fun m parent children added piece ho' =>
      (ht.refills_of ho ho').elim, fun key' value owner added piece ho' hvalue hpiece => ?_⟩⟩
    have hsame : key' = .str key := ht.refills_of ho ho'
    subst hsame
    have hhole := finite_attribute ho' hvalue
    have hinline : (t.tree value).inlineText = .ok piece := textOf_ok_iff.1 hpiece
    rw [hjoin]
    refine haround t ht hhole _ ?_
    rw [hhole.tree_attribute ho', render, attributeOf_eq_ok_iff]
    exact ⟨ne_null_of_inlineText hinline, key, rfl, piece, hinline, rfl⟩

/-- A fragment of an element and a text, with a placeholder and a bound attribute in the element. -/
def holeObjects (m : Value) : Array Object := #[
  .node ⟨.fragment, .own [.object ⟨1⟩, .object ⟨3⟩]⟩ [],
  .node ⟨.element (.str "p") .null (.own []) (.own [.object ⟨4⟩]) (.own []), .own [.object ⟨2⟩]⟩ [],
  .node ⟨.placeholder m (.object ⟨1⟩), .own []⟩ [],
  .node ⟨.text (.str "z"), .own []⟩ [],
  .morph (.attribute (.str "a") (.object ⟨5⟩) (.object ⟨1⟩)) [],
  .expression (.literal (.str "v"))]

/-- The placeholder without a morph. -/
def holeStore : Store where
  objects := holeObjects .null

/-- The placeholder bound to a content. -/
def filledStore (text : String) : Store where
  objects := (holeObjects (.object ⟨6⟩)).push (.morph (.content (.str text)) [])

theorem holeStore_refilled (text : String) : holeStore.Refilled (filledStore text) ⟨2⟩ where
  keeps id o hid ho := by
    obtain ⟨i⟩ := id
    have hi : i < 6 := index_lt_of_object? ho
    interval_cases i
    · exact ho
    · exact ho
    · exact absurd rfl hid
    · exact ho
    · exact ho
    · exact ho
  refills := ⟨_, _, rfl, rfl, trivial⟩

theorem holeStore_closed : holeStore.Closed := by
  have hindex : ∀ o ∈ holeStore.objects.toList, ∀ v ∈ o.values, ∀ id ∈ v.root?.toList,
      id.index < 6 := by
    decide
  intro id o ho v hv i hi
  have ho' : o ∈ holeStore.objects.toList := Array.mem_toList_iff.2 (Array.mem_of_getElem? ho)
  exact object?_eq_some_iff_lt.2 (hindex o ho' v hv i (Option.mem_toList.2 hi))

section Sample

theorem holeStore_fragment : holeStore.object? ⟨0⟩ =
    some (.node ⟨.fragment, .own [.object ⟨1⟩, .object ⟨3⟩]⟩ []) := rfl

theorem holeStore_element : holeStore.object? ⟨1⟩ = some (.node ⟨.element (.str "p") .null (.own [])
    (.own [.object ⟨4⟩]) (.own []), .own [.object ⟨2⟩]⟩ []) := rfl

theorem holeStore_text : holeStore.object? ⟨3⟩ = some (.node ⟨.text (.str "z"), .own []⟩ []) := rfl

theorem holeStore_attribute : holeStore.object? ⟨4⟩ =
    some (.morph (.attribute (.str "a") (.object ⟨5⟩) (.object ⟨1⟩)) []) := rfl

theorem holeStore_value : holeStore.object? ⟨5⟩ = some (.expression (.literal (.str "v"))) := rfl

theorem holeStore_finite : holeStore.Finite (.object ⟨0⟩) := by
  have hplain : ∀ text : String, holeStore.isPrinted (.str text) = false := fun _ => rfl
  have hvalue : holeStore.Finite (.object ⟨5⟩) := finite_of_word holeStore_value rfl rfl rfl
  have hattribute := finite_attribute holeStore_attribute hvalue
  have hhole : holeStore.Finite (.object ⟨2⟩) := finite_placeholder rfl finite_null
  have htext : holeStore.Finite (.object ⟨3⟩) := finite_of_word holeStore_text rfl rfl rfl
  have helement : holeStore.Finite (.object ⟨1⟩) := by
    refine finite_of_treed holeStore_element ?_ ?_
    · simp [treed, treedItems, hattribute, hhole]
    · simp [worded, wordedItems, wordedEntries, treedEntries, hplain]
  refine finite_of_treed holeStore_fragment ?_ (by simp [worded, wordedItems])
  simp [treed, treedItems, helement, htext]

theorem holeStore_once : holeStore.Once ⟨2⟩ (.object ⟨0⟩) 1 := by
  have hvalue : ¬ holeStore.Meets (.object ⟨5⟩) ⟨2⟩ :=
    not_meets_of_contents holeStore_value (by decide)
      (by simp [contents, not_meets_of_not_object])
  have htag : holeStore.tagOf (.object ⟨1⟩) = .str "p" := rfl
  have hattribute : ¬ holeStore.Meets (.object ⟨4⟩) ⟨2⟩ :=
    not_meets_of_contents holeStore_attribute (by decide)
      (by simp [contents, htag, hvalue, not_meets_of_not_object])
  have htext : ¬ holeStore.Meets (.object ⟨3⟩) ⟨2⟩ :=
    not_meets_of_contents holeStore_text (by decide)
      (by simp [contents, Shape.contents, Held.listed, not_meets_of_not_object])
  have hchild : holeStore.HoldsOnly ⟨2⟩ ⟨1⟩ 1 (.object ⟨2⟩) := by
    have hkids : holeStore.heldItems? (.own [.object ⟨2⟩]) = some ([] ++ Value.object ⟨2⟩ :: []) := rfl
    refine .nested holeStore_element hkids ?_
    simp [Held.listed, Held.paired, hattribute, not_meets_of_not_object]
  have helement : holeStore.HoldsOnly ⟨2⟩ ⟨0⟩ 0 (.object ⟨1⟩) := by
    have hkids : holeStore.heldItems? (.own [.object ⟨1⟩, .object ⟨3⟩]) =
        some ([] ++ Value.object ⟨1⟩ :: [.object ⟨3⟩]) := rfl
    exact .child holeStore_fragment hkids (by simp [htext])
  exact .step (by decide) helement (.step (by decide) hchild .here)

end Sample

/-- Whatever the content is, it is the only thing in the text that depends on it. -/
theorem text_around_hole_filledStore : ∃ before after, ∀ text,
    Method.printAt (.object ⟨0⟩) (.int 2) .null (filledStore text) =
      .ok (.str (before ++ mustache text ++ after)) (filledStore text) := by
  have hcontent : ∀ text, (filledStore text).object? ⟨6⟩ = some (.morph (.content (.str text)) []) :=
    fun _ => rfl
  have hfinite : ∀ text, (filledStore text).Finite (.object ⟨6⟩) := fun text =>
    finite_of_word (hcontent text) rfl rfl rfl
  obtain ⟨before, after, haround⟩ := text_around_hole holeStore_closed holeStore_finite holeStore_once
    2 none ⟨filledStore "x", _, holeStore_refilled "x", finite_placeholder rfl (hfinite "x"), rfl⟩
  exact ⟨before, after, fun text => (haround (filledStore text) (holeStore_refilled text)).1 _ _ _ _ _
    rfl (hfinite text) rfl⟩

/-- A placeholder bound to a text, and another one whose content is the first. -/
def echoStore (text : String) : Store where
  objects := #[
    .node ⟨.fragment, .own [.object ⟨1⟩, .object ⟨2⟩]⟩ [],
    .node ⟨.placeholder (.object ⟨3⟩) (.object ⟨0⟩), .own []⟩ [],
    .node ⟨.placeholder (.object ⟨4⟩) (.object ⟨0⟩), .own []⟩ [],
    .morph (.content (.str text)) [],
    .morph (.content (.object ⟨1⟩)) []]

/-- It is not enough that a placeholder stands in one place among children and branches: one that is
also the content of another is printed there as well. -/
theorem no_text_around_echo : ¬ ∃ before after, ∀ text,
    Method.printAt (.object ⟨0⟩) (.int 0) .null (echoStore text) =
      .ok (.str (before ++ mustache text ++ after)) (echoStore text) := by
  rintro ⟨before, after, h⟩
  have hprint : ∀ text, Method.printAt (.object ⟨0⟩) (.int 0) .null (echoStore text) =
      .ok (.str (mustache text ++ "\n" ++ mustache (mustache text))) (echoStore text) := by
    intro text
    have hraw : Method.printAt (.object ⟨0⟩) (.int 0) .null (echoStore text) =
        .ok (.str ("" ++ mustache text ++ "\n" ++ ("" ++ mustache ("" ++ mustache text))))
          (echoStore text) := rfl
    simpa only [String.empty_append] using hraw
  have hmustache : ∀ text, (mustache text).length = text.length + 6 := by
    intro text
    have hopen : "\x7b\x7b ".length = 3 := rfl
    have hclose : " \x7d\x7d".length = 3 := rfl
    rw [mustache, String.length_append, String.length_append]
    omega
  -- A content that is longer by one makes the text longer by two.
  have hlength : ∀ text : String,
      before.length + (text.length + 6) + after.length = 2 * text.length + 19 := by
    intro text
    have heq := (hprint text).symm.trans (h text)
    simp only [EStateM.Result.ok.injEq, Value.str.injEq, and_true] at heq
    have hlen := congrArg String.length heq
    simp only [String.length_append, hmustache] at hlen
    have hnewline : "\n".length = 1 := rfl
    omega
  have hshort : before.length + (0 + 6) + after.length = 2 * 0 + 19 := hlength ""
  have hlong : before.length + (1 + 6) + after.length = 2 * 1 + 19 := hlength "x"
  omega

end TemplateRecovery
