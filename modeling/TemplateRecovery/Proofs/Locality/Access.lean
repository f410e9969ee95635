import TemplateRecovery.Proofs.Locality.Reads

/-!
# Containers, attributes and documents stay in their region

Each operation on a value of a region reads the same in two stores that agree on it, finds or makes
something inside, and changes nothing outside.

* `Container.item_local`, `Attribute.find?_local`, `Attribute.set_local` and their like are about
  single values.
* `Document.call_local` is about the operations of a document.
* `Hook.call_local` is about hooks; what they have recovered is up to the machine.
-/

namespace TemplateRecovery

open Act Container

variable {name : String} {v key container : Value} {held : Held (List Value)} {c : HelperCall}
  {id : ObjectId}

variable {r : Region} {s s' : Store}

/-! ### Lists of actions -/

section Lists

variable {α β : Type} [Names α] [Names β]

theorem Act.local_mapM {f : α → Act β} {xs : List α} (h : Alike r s s') (hxs : InRegion r xs)
    (hf : ∀ {a r' t t'}, r ⊆ r' → Alike r' t t' → InRegion r' a → (f a).Local r' t t') :
    (xs.mapM f).Local r s s' := by
  induction xs generalizing r s s' with
  | nil => exact local_pure h inRegion_nil
  | cons a rest ih =>
    simp only [inRegion_cons] at hxs
    rw [List.mapM_cons]
    refine (hf subset_rfl h hxs.1).bind fun o hb => ?_
    refine (ih o.alike (hxs.2.mono o.grows) fun hr => hf (o.grows.trans hr)).bind fun o' hbs => ?_
    exact local_pure o'.alike (by simp [hb.mono o'.grows, hbs])

theorem Act.local_foldlM {f : β → α → Act β} {xs : List α} {b : β} (h : Alike r s s')
    (hxs : InRegion r xs) (hb : InRegion r b)
    (hf : ∀ {b a r' t t'}, r ⊆ r' → Alike r' t t' → InRegion r' b → InRegion r' a →
      (f b a).Local r' t t') :
    (xs.foldlM f b).Local r s s' := by
  induction xs generalizing r s s' b with
  | nil => exact local_pure h hb
  | cons a rest ih =>
    simp only [inRegion_cons] at hxs
    rw [List.foldlM_cons]
    refine (hf subset_rfl h hb hxs.1).bind fun o hb' => ?_
    exact ih o.alike (hxs.2.mono o.grows) hb' fun hr => hf (o.grows.trans hr)

end Lists

theorem inRegion_lookup {fields : Fields} (hf : InRegion r fields) (name : String) :
    InRegion r (fields.lookup name) := by
  induction fields with
  | nil => exact inRegion_none
  | cons e rest ih =>
    obtain ⟨k, v⟩ := e
    simp only [inRegion_cons, inRegion_prod] at hf
    rw [List.lookup_cons]
    split
    · exact inRegion_some.2 hf.1.2
    · exact ih hf.2

theorem inRegion_set {α : Type} [Names α] {fields : List (String × α)} {v : α}
    (hf : InRegion r fields) (hv : InRegion r v) : InRegion r (Assoc.set name v fields) :=
  Alike.inRegion_insert (inRegion_string name) hv hf

theorem inRegion_getElem? {items : List Value} (hitems : InRegion r items) (p : Nat) :
    InRegion r (items[p]?.getD .null) := by
  cases hp : items[p]? with
  | none => simp
  | some v => exact inRegion_list.1 hitems v (List.mem_of_getElem? hp)

theorem inRegion_characters (t : String) : InRegion r (Value.characters t) := by
  refine inRegion_list.2 fun v hv => ?_
  obtain ⟨c, _, rfl⟩ := List.mem_map.1 hv
  exact inRegion_str _

theorem inRegion_listSet {items : List Value} (hitems : InRegion r items) (hv : InRegion r v)
    (p : Nat) : InRegion r (items.set p v) := by
  refine inRegion_list.2 fun w hw => ?_
  rcases List.mem_or_eq_of_mem_set hw with hw | rfl
  · exact inRegion_list.1 hitems w hw
  · exact hv

/-! ### Containers -/

namespace Container

section Containers

variable (h : Alike r s s')

include h

theorem length_local (hv : InRegion r v) : (length v).Local r s s' := by
  refine local_store ?_
  simp only [h.asObject? hv]
  split <;> first | exact local_pure h (inRegion_nat _) | exact local_fail h rfl

theorem items_local (hv : InRegion r v) : (items v).Local r s s' := by
  refine local_store ?_
  simp only [h.asObject? hv]
  split
  · exact local_pure h (inRegion_characters _)
  · next ho => exact local_pure h (inRegion_listObject.1 (h.of_asObject? hv ho).2)
  · next ho => exact local_pure h (inRegion_tupleObject.1 (h.of_asObject? hv ho).2)
  · next ho =>
    exact local_pure h (inRegion_map_fst (inRegion_mapObject.1 (h.of_asObject? hv ho).2))
  · exact local_noKey h (inRegion_intValue 0)
  · exact local_noKey h (inRegion_intValue 0)
  · exact local_fail h rfl

theorem position_local (length : Nat) {missing : Fault}
    (hmissing : missing.isOrdinary = true) (key : Value) :
    (position length missing key).Local r s s' := by
  unfold position
  split
  · exact local_fail h rfl
  · split_ifs
    · exact local_fail h rfl
    · split
      · exact local_pure h (inRegion_nat _)
      · exact local_fail h hmissing

theorem hookItem_local (hv : InRegion r v) (hkey : InRegion r key) :
    (item.hookItem v key).Local r s s' := by
  unfold item.hookItem
  split
  · split_ifs
    · exact local_pure h (inRegion_method.2 hv)
    · exact local_noKey h hkey
  · exact local_noKey h hkey

theorem item_local (hv : InRegion r v) (hkey : InRegion r key) : (item v key).Local r s s' := by
  refine local_store ?_
  simp only [h.asObject? hv]
  split
  · exact (position_local h _ rfl key).bind fun o _ => local_pure o.alike (inRegion_str _)
  · next ho =>
    have hitems := inRegion_listObject.1 (h.of_asObject? hv ho).2
    exact (position_local h _ rfl key).bind fun o _ =>
      local_pure o.alike ((inRegion_getElem? hitems _).mono o.grows)
  · next ho =>
    have hitems := inRegion_tupleObject.1 (h.of_asObject? hv ho).2
    exact (position_local h _ rfl key).bind fun o _ =>
      local_pure o.alike ((inRegion_getElem? hitems _).mono o.grows)
  · next entries _ ho =>
    have hentries := inRegion_mapObject.1 (h.of_asObject? hv ho).2
    rw [h.isKey hkey, h.find? hkey hentries]
    have hfound : InRegion r (s.find? key entries) := Alike.inRegion_find? hentries
    split_ifs
    · split
      · next found heq =>
        rw [heq] at hfound
        exact local_pure h (inRegion_some.1 hfound)
      · exact local_noKey h hkey
    · exact local_fail h rfl
  · exact hookItem_local h hv hkey
  · next ho =>
    have henv := inRegion_environmentObject.1 (h.of_asObject? hv ho).2
    split_ifs
    · exact local_pure h henv.1
    · exact local_pure h henv.2
    · exact local_noKey h hkey
  · exact local_fail h rfl

theorem setItem_local (hc : InRegion r container) (hkey : InRegion r key)
    (hv : InRegion r v) : (setItem container key v).Local r s s' := by
  refine local_store ?_
  rw [h.asObject? hc]
  split
  · next id entries ho =>
    obtain ⟨hid, hobj⟩ := h.of_asObject? hc ho
    rw [h.isKey hkey]
    split_ifs
    · -- the key is compared in each store with the entries that are there
      have hwith : ∀ o, s.object? id = some o →
          withEntry s' key v o = withEntry s key v o ∧ InRegion r (withEntry s key v o) := by
        intro o ho
        have ho := h.closed id hid o ho
        cases o with
        | map entries =>
          have he := inRegion_mapObject.1 ho
          exact ⟨congrArg Object.map (h.insert hkey he),
            inRegion_mapObject.2 (Alike.inRegion_insert hkey hv he)⟩
        | _ => exact ⟨rfl, ho⟩
      exact relates_of_ok rfl rfl (h.outcome_update hid hwith) ⟨rfl, inRegion_unit _⟩
    · exact local_fail h rfl
  · next id items ho =>
    obtain ⟨hid, -⟩ := h.of_asObject? hc ho
    refine (position_local h _ rfl key).bind fun o _ => local_modify o.alike (o.grows hid) ?_
    intro p hp
    have hp := o.alike.closed id (o.grows hid) p hp
    cases p with
    | list items =>
      exact inRegion_listObject.2 (inRegion_listSet (inRegion_listObject.1 hp) (hv.mono o.grows) _)
    | _ => exact hp
  · exact local_fail h rfl

omit h in
theorem inRegion_spliced {items : List Value} (hitems : InRegion r items) (hv : InRegion r v)
    (first last : Nat) : InRegion r (spliced items first last v) := by
  simp [spliced, hitems.subset (List.take_subset _ _), hitems.subset (List.drop_subset _ _), hv]

theorem splice_local (hc : InRegion r container) (hv : InRegion r v)
    (first last : Nat) : (splice container first last v).Local r s s' := by
  refine local_store ?_
  rw [h.asObject? hc]
  split
  · next id items ho =>
    have hid := (h.of_asObject? hc ho).1
    refine local_modify h hid fun o ho => ?_
    have ho := h.closed id hid o ho
    cases o with
    | list items => exact inRegion_listObject.2 (inRegion_spliced (inRegion_listObject.1 ho) hv _ _)
    | _ => exact ho
  · exact local_fail h rfl

theorem append_local (hc : InRegion r container) (hv : InRegion r v) :
    (append container v).Local r s s' := by
  refine local_store ?_
  rw [h.asObject? hc]
  split
  · next id items ho =>
    have hid := (h.of_asObject? hc ho).1
    refine local_modify h hid fun o ho => ?_
    have ho := h.closed id hid o ho
    cases o with
    | list items =>
      simp only [withItems, inRegion_listObject, inRegion_append, inRegion_cons, inRegion_nil,
        and_true] at ho ⊢
      exact ⟨ho, hv⟩
    | _ => exact ho
  · exact local_noAttribute h hc _

theorem expectList_local (hv : InRegion r v) : (expectList v).Local r s s' := by
  refine local_store ?_
  rw [h.asObject? hv]
  split
  · exact local_pure h (inRegion_unit _)
  · exact local_noAttribute h hv _

theorem pairOf_local (index : Nat) (hv : InRegion r v) : (pairOf index v).Local r s s' := by
  refine (items_local h hv).bind fun {parts _ _ _} o hparts => ?_
  split
  · simp only [inRegion_cons] at hparts
    exact local_pure o.alike (inRegion_prod.2 ⟨hparts.1, hparts.2.1⟩)
  · exact local_fail o.alike rfl

omit h in
theorem pairsFrom_local : ∀ {values : List Value} {index : Nat} {entries : Entries} {r : Region}
    {s s' : Store}, Alike r s s' → InRegion r values → InRegion r entries →
    (pairsFrom index values entries).Local r s s'
  | [], _, _, _, _, _, h, _, he => local_pure h he
  | v :: rest, index, entries, r, s, s', h, hvalues, he => by
    simp only [inRegion_cons] at hvalues
    refine (pairOf_local h index hvalues.1).bind fun {found r' t t'} o hfound => ?_
    obtain ⟨k, w⟩ := found
    obtain ⟨hk, hw⟩ := inRegion_prod.1 hfound
    refine local_store ?_
    simp only [o.alike.isKey hk, o.alike.insert hk (he.mono o.grows)]
    split_ifs
    · exact pairsFrom_local o.alike (hvalues.2.mono o.grows)
        (Alike.inRegion_insert hk hw (he.mono o.grows))
    · exact local_fail o.alike rfl

theorem pairs_local (hv : InRegion r v) : (pairs v).Local r s s' := by
  refine local_store ?_
  rw [h.entries? hv]
  split
  · next he => exact local_pure h (h.of_entries? hv he)
  · exact (items_local h hv).bind fun o hparts => pairsFrom_local o.alike hparts inRegion_nil

end Containers

end Container

namespace Held

section Held

variable (h : Alike r s s')

include h

theorem length_local (hheld : InRegion r held) : held.length.Local r s s' := by
  cases held with
  | own items => exact local_pure h (inRegion_nat _)
  | shared v => exact length_local h (inRegion_sharedItems.1 hheld)

theorem expectList_local (hheld : InRegion r held) : held.expectList.Local r s s' := by
  cases held with
  | own items => exact local_pure h (inRegion_unit _)
  | shared v => exact expectList_local h (inRegion_sharedItems.1 hheld)

theorem append_local (hheld : InRegion r held) (hv : InRegion r v)
    {keep : Held (List Value) → Act Unit}
    (hkeep : ∀ held, InRegion r held → (keep held).Local r s s') :
    (held.append v keep).Local r s s' := by
  cases held with
  | own items => exact hkeep _ (by simp [inRegion_ownItems.1 hheld, hv])
  | shared w => exact append_local h (inRegion_sharedItems.1 hheld) hv

theorem splice_local (hheld : InRegion r held) (hv : InRegion r v)
    {keep : Held (List Value) → Act Unit}
    (hkeep : ∀ held, InRegion r held → (keep held).Local r s s') (first last : Nat) :
    (held.splice first last v keep).Local r s s' := by
  cases held with
  | own items => exact hkeep _ (inRegion_spliced (inRegion_ownItems.1 hheld) hv _ _)
  | shared w => exact splice_local h (inRegion_sharedItems.1 hheld) hv first last

theorem bind_local {held : Held Entries} (hheld : InRegion r held)
    (hkey : InRegion r key) (hv : InRegion r v) {keep : Held Entries → Act Unit}
    (hkeep : ∀ held, InRegion r held → (keep held).Local r s s') :
    (held.bind key v keep).Local r s s' := by
  cases held with
  | own entries =>
    have he := inRegion_ownEntries.1 hheld
    refine local_store ?_
    rw [h.isKey hkey, h.insert hkey he]
    split_ifs
    · exact hkeep _ (inRegion_ownEntries.2 (Alike.inRegion_insert hkey hv he))
    · exact local_fail h rfl
  | shared w => exact setItem_local h (inRegion_sharedEntries.1 hheld) hkey hv

theorem get_local (hheld : InRegion r held) (p : Nat) : (held.get p).Local r s s' := by
  cases held with
  | own items => exact local_pure h (inRegion_getElem? (inRegion_ownItems.1 hheld) p)
  | shared v => exact item_local h (inRegion_sharedItems.1 hheld) (inRegion_intValue _)

end Held

end Held

/-! ### Fields -/

namespace Field

variable {o : Object}

theorem inRegion_callValue? (hc : InRegion r c) (nameField name : String) :
    InRegion r (callValue? nameField name c) := by
  obtain ⟨callName, params, hash⟩ := c
  unfold callValue?
  split_ifs
  · exact inRegion_some.2 (inRegion_call.1 hc).1
  · exact inRegion_none

theorem inRegion_or {x y : Option Value} (hx : InRegion r x) (hy : InRegion r y) :
    InRegion r (x.or y) := by
  cases x with
  | none => exact hy
  | some v => exact hx

section Fields

variable (ho : InRegion r o)

include ho

theorem inRegion_value? (name : String) : InRegion r (value? name o) := by
  cases o with
  | record fields => exact inRegion_lookup (inRegion_recordObject.1 ho) name
  | expression e =>
    cases e with
    | literal v | path v =>
      simp only [value?]
      split_ifs
      · simpa using ho
      · exact inRegion_none
    | concat parts => exact inRegion_none
    | subexpr c => exact inRegion_callValue? (by simpa using ho) "name" name
  | morph m added =>
    obtain ⟨hm, hadded⟩ := inRegion_morphObject.1 ho
    refine inRegion_or ?_ (inRegion_lookup hadded name)
    cases m with
    | inline c | element c => exact inRegion_callValue? (by simpa using hm) "helper_name" name
    | «attribute» key value owner =>
      simp only [inRegion_attribute] at hm
      simp only
      split_ifs <;> simp [hm]
    | content v =>
      simp only
      split_ifs
      · simpa using hm
      · exact inRegion_none
    | block c primary alternate =>
      simp only [inRegion_block] at hm
      simp only
      split_ifs
      · exact inRegion_some.2 hm.1
      · exact inRegion_some.2 hm.2.1
      · exact inRegion_callValue? hm.2.2 "block_name" name
  | node n added =>
    obtain ⟨shape, children⟩ := n
    obtain ⟨hn, hadded⟩ := inRegion_nodeObject.1 ho
    have hshape := (inRegion_node.1 hn).1
    refine inRegion_or ?_ (inRegion_lookup hadded name)
    cases shape with
    | fragment => exact inRegion_none
    | element tag ns attributes bound modifiers =>
      simp only [inRegion_element] at hshape
      simp only
      split_ifs <;> simp [hshape]
    | text v | comment v =>
      simp only
      split_ifs
      · simpa using hshape
      · exact inRegion_none
    | placeholder morph parent =>
      simp only [inRegion_placeholder] at hshape
      simp only
      split_ifs <;> simp [hshape]
  | slot owner added =>
    obtain ⟨howner, hadded⟩ := inRegion_slotObject.1 ho
    simp only [value?]
    split_ifs
    · exact inRegion_some.2 howner
    · exact inRegion_lookup hadded name
  | function f added => exact inRegion_lookup (inRegion_functionObject.1 ho).2 name
  | document ns =>
    simp only [value?]
    split_ifs <;> simp [inRegion_documentObject.1 ho]
  | environment dom table =>
    simp only [value?]
    split_ifs <;> simp [inRegion_environmentObject.1 ho]
  | _ => exact inRegion_none

theorem inRegion_call? (hc : call? o = some c) : InRegion r c := by
  unfold call? at hc
  split at hc
  · cases hc; simpa using ho
  · cases hc; exact (inRegion_morphObject.1 ho).1
  · cases hc; exact (inRegion_morphObject.1 ho).1
  · cases hc; exact (inRegion_block.1 (inRegion_morphObject.1 ho).1).2.2
  · cases hc

theorem inRegion_items? (hitems : items? name o = some held) : InRegion r held := by
  unfold items? at hitems
  split at hitems
  · cases hitems
    exact (inRegion_node.1 (inRegion_nodeObject.1 ho).1).2
  · cases hitems
    simp only [inRegion_nodeObject, inRegion_node, inRegion_element] at ho
    exact ho.1.1.2.2.2.1
  · cases hitems
    simp only [inRegion_nodeObject, inRegion_node, inRegion_element] at ho
    exact ho.1.1.2.2.2.2
  · cases hitems
    simpa using ho
  · obtain ⟨c, hc, rfl⟩ := Option.map_eq_some_iff.1 hitems
    exact (inRegion_call.1 (inRegion_call? ho hc)).2.1
  · cases hitems

theorem inRegion_entries? {held : Held Entries}
    (hentries : entries? name o = some held) : InRegion r held := by
  unfold entries? at hentries
  split at hentries
  · cases hentries
    simp only [inRegion_nodeObject, inRegion_node, inRegion_element] at ho
    exact ho.1.1.2.2.1
  · obtain ⟨c, hc, rfl⟩ := Option.map_eq_some_iff.1 hentries
    exact (inRegion_call.1 (inRegion_call? ho hc)).2.2
  · cases hentries

theorem inRegion_mapCall {f : HelperCall → HelperCall}
    (hf : ∀ c, InRegion r c → InRegion r (f c)) : InRegion r (mapCall f o) := by
  unfold mapCall
  split
  · simp only [inRegion_expressionObject, inRegion_subexpr] at ho ⊢
    exact hf _ ho
  · simp only [inRegion_morphObject, inRegion_inline] at ho ⊢
    exact ⟨hf _ ho.1, ho.2⟩
  · simp only [inRegion_morphObject, inRegion_modifier] at ho ⊢
    exact ⟨hf _ ho.1, ho.2⟩
  · simp only [inRegion_morphObject, inRegion_block] at ho ⊢
    exact ⟨⟨ho.1.1, ho.1.2.1, hf _ ho.1.2.2⟩, ho.2⟩
  · exact ho

theorem inRegion_withContainer (hv : InRegion r v) (name : String) :
    InRegion r (withContainer name v o) := by
  unfold withContainer
  split
  · next n added =>
    obtain ⟨shape, children⟩ := n
    simp_all
  iterate 3
    · simp only [inRegion_nodeObject, inRegion_node, inRegion_element, inRegion_sharedItems,
        inRegion_sharedEntries] at ho ⊢
      simp [ho, hv]
  · simpa using hv
  · refine inRegion_mapCall ho fun c hc => ?_
    obtain ⟨callName, params, hash⟩ := c
    simp only [inRegion_call, inRegion_sharedItems] at hc ⊢
    exact ⟨hc.1, hv, hc.2.2⟩
  · refine inRegion_mapCall ho fun c hc => ?_
    obtain ⟨callName, params, hash⟩ := c
    simp only [inRegion_call, inRegion_sharedEntries] at hc ⊢
    exact ⟨hc.1, hc.2.1, hv⟩
  · exact ho

omit ho in
theorem inRegion_withName (hc : InRegion r c) (hv : InRegion r v) :
    InRegion r { c with name := v } := by
  obtain ⟨callName, params, hash⟩ := c
  exact inRegion_call.2 ⟨hv, (inRegion_call.1 hc).2⟩

theorem inRegion_withValue (hv : InRegion r v) (name : String) :
    InRegion r (withValue name v o) := by
  cases o with
  | record fields => exact inRegion_recordObject.2 (inRegion_set (inRegion_recordObject.1 ho) hv)
  | morph m added =>
    obtain ⟨hm, hadded⟩ := inRegion_morphObject.1 ho
    simp only [withValue]
    split <;> simp only [inRegion_inline, inRegion_modifier, inRegion_attribute, inRegion_content,
      inRegion_block, inRegion_morphObject] at hm ⊢
    · exact ⟨inRegion_withName hm hv, hadded⟩
    · exact ⟨inRegion_withName hm hv, hadded⟩
    · exact ⟨⟨hv, hm.2⟩, hadded⟩
    · exact ⟨⟨hm.1, hv, hm.2.2⟩, hadded⟩
    · exact ⟨⟨hm.1, hm.2.1, hv⟩, hadded⟩
    · exact ⟨hv, hadded⟩
    · exact ⟨⟨hm.1, hm.2.1, inRegion_withName hm.2.2 hv⟩, hadded⟩
    · exact ⟨⟨hv, hm.2⟩, hadded⟩
    · exact ⟨⟨hm.1, hv, hm.2.2⟩, hadded⟩
    · exact ⟨hm, inRegion_set hadded hv⟩
  | node n added =>
    obtain ⟨shape, children⟩ := n
    simp only [inRegion_nodeObject, inRegion_node] at ho
    obtain ⟨⟨hshape, hchildren⟩, hadded⟩ := ho
    simp only [withValue]
    split <;> simp only [inRegion_element, inRegion_text, inRegion_comment, inRegion_placeholder,
      inRegion_nodeObject, inRegion_node] at hshape ⊢
    · exact ⟨⟨⟨hv, hshape.2⟩, hchildren⟩, hadded⟩
    · exact ⟨⟨⟨hshape.1, hv, hshape.2.2⟩, hchildren⟩, hadded⟩
    · exact ⟨⟨hv, hchildren⟩, hadded⟩
    · exact ⟨⟨hv, hchildren⟩, hadded⟩
    · exact ⟨⟨⟨hv, hshape.2⟩, hchildren⟩, hadded⟩
    · exact ⟨⟨⟨hshape.1, hv⟩, hchildren⟩, hadded⟩
    · exact ⟨⟨hshape, hchildren⟩, inRegion_set hadded hv⟩
  | slot owner added =>
    obtain ⟨howner, hadded⟩ := inRegion_slotObject.1 ho
    simp only [withValue]
    split_ifs
    · exact inRegion_slotObject.2 ⟨hv, hadded⟩
    · exact inRegion_slotObject.2 ⟨howner, inRegion_set hadded hv⟩
  | function f added =>
    obtain ⟨hf, hadded⟩ := inRegion_functionObject.1 ho
    exact inRegion_functionObject.2 ⟨hf, inRegion_set hadded hv⟩
  | document ns =>
    simp only [withValue]
    split_ifs
    · exact inRegion_documentObject.2 hv
    · exact ho
  | environment dom table =>
    obtain ⟨hdom, htable⟩ := inRegion_environmentObject.1 ho
    simp only [withValue]
    split_ifs
    · exact inRegion_environmentObject.2 ⟨hv, htable⟩
    · exact inRegion_environmentObject.2 ⟨hdom, hv⟩
    · exact ho
  | _ => exact ho

theorem inRegion_assigned (hv : InRegion r v) (name : String) : InRegion r (assigned name v o) := by
  unfold assigned
  split_ifs
  · exact inRegion_withContainer ho hv name
  · exact inRegion_withValue ho hv name

end Fields

/-- A table of hooks has no containers of its own, and nothing can be assigned to it. -/
theorem withContainer_hooks (name : String) (v : Value) : withContainer name v .hooks = .hooks := by
  unfold withContainer
  split <;> first | contradiction | rfl

theorem assigned_hooks (name : String) (v : Value) : assigned name v .hooks = .hooks := by
  unfold assigned
  split_ifs
  · exact withContainer_hooks name v
  · rfl

/-- Reading a container that was an object's own makes a new one that both hold. -/
theorem share_local (h : Alike r s s') (hid : id ∈ r) {contents : Object}
    (hcontents : InRegion r contents) (name : String) :
    (do
      let v ← Act.new contents
      Act.modify id (withContainer name v)
      return some v : Act (Option Value)).Local r s s' := by
  refine (local_new h hcontents).bind fun {v _ _ _} o hv => ?_
  refine Local.bind (local_modify o.alike (o.grows hid) (fun p hp =>
    inRegion_withContainer (o.alike.closed id (o.grows hid) p hp) hv name)
      fun _ => withContainer_hooks name v) fun o' _ => ?_
  exact local_pure o'.alike (inRegion_some.2 (hv.mono o'.grows))

theorem read?_local (h : Alike r s s') (hid : id ∈ r) (ho : InRegion r o) (name : String) :
    (read? id o name).Local r s s' := by
  unfold read?
  cases hvalue : value? name o with
  | some v => exact local_pure h (hvalue ▸ inRegion_value? ho name)
  | none =>
    cases hitems : items? name o with
    | some held =>
      have hheld := inRegion_items? ho hitems
      cases held with
      | shared v => exact local_pure h (inRegion_some.2 (inRegion_sharedItems.1 hheld))
      | own items =>
        have hlist : InRegion r (Object.list items) := inRegion_ownItems.1 hheld
        exact share_local h hid hlist name
    | none =>
      cases hentries : entries? name o with
      | some held =>
        have hheld := inRegion_entries? ho hentries
        cases held with
        | shared v => exact local_pure h (inRegion_some.2 (inRegion_sharedEntries.1 hheld))
        | own entries =>
          exact share_local h hid (inRegion_mapObject.2 (inRegion_ownEntries.1 hheld)) name
      | none => exact local_pure h inRegion_none

theorem inRegion_added (ho : InRegion r o) : InRegion r (added o) := by
  cases o with
  | morph m added => exact (inRegion_morphObject.1 ho).2
  | node n added => exact (inRegion_nodeObject.1 ho).2
  | slot owner added => exact (inRegion_slotObject.1 ho).2
  | function f added => exact (inRegion_functionObject.1 ho).2
  | _ => exact inRegion_nil

theorem all_local (h : Alike r s s') (hid : id ∈ r) (ho : InRegion r o) :
    (all id o).Local r s s' := by
  have hnames : InRegion r (names o) := inRegion_list.2 fun _ _ => inRegion_string _
  refine (local_mapM h hnames fun hr halike _ => ?_).bind fun {own _ _ _} o' hown => ?_
  · refine (read?_local halike (hr hid) (ho.mono hr) _).bind fun {v _ _ _} o' hv => ?_
    exact local_pure o'.alike (inRegion_prod.2 ⟨inRegion_str _, inRegion_getD hv inRegion_null⟩)
  · refine local_pure o'.alike (inRegion_append.2 ⟨hown, ?_⟩)
    exact inRegion_named.2 ((inRegion_added ho).mono o'.grows)

end Field

/-! ### Attributes -/

namespace Attribute

theorem inRegion_part? (hv : InRegion r v) (name : String) : InRegion r (part? v name) := by
  have hint : ∀ n, InRegion r (intPart? n name) := by
    intro n
    unfold intPart?
    split <;> simp
  have hday : ∀ d, InRegion r (dayPart? d name) := by
    intro d
    unfold dayPart?
    split <;> simp
  have hclock : ∀ c zone, InRegion r (clockPart? c zone name) := by
    intro c zone
    unfold clockPart?
    split <;> try simp
    cases zone <;> simp
  unfold part?
  split
  · exact hint _
  · exact hint _
  · split
    · exact inRegion_some.2 hv
    · simp
    · simp
  · split
    · exact inRegion_some.2 hv
    · simp
    · simp
  · exact hday _
  · exact Field.inRegion_or (hday _) (hclock _ _)
  all_goals first | exact inRegion_none | split <;> simp

section Attributes

variable (h : Alike r s s')

include h

theorem hasMethod_eq (hv : InRegion r v) (name : String) :
    hasMethod s' v name = hasMethod s v name := by
  simp only [hasMethod, h.typeName hv, h.asObject? hv]

theorem typeMember?_eq (hv : InRegion r v) (name : String) :
    typeMember? s' v name = typeMember? s v name := by
  rw [typeMember?, typeMember?, h.typeName hv, h.asObject? hv, hasMethod_eq h hv]

omit h in
theorem inRegion_typeMember? (hv : InRegion r v) (name : String) :
    InRegion r (typeMember? s v name) := by
  unfold typeMember?
  simp only
  split_ifs
  · simp
  · simp
  · refine Field.inRegion_or (Field.inRegion_or (inRegion_part? hv name) ?_)
      (inRegion_some.2 (inRegion_method.2 hv))
    unfold descriptor?
    split <;> [split_ifs <;> simp; simp]
  · refine Field.inRegion_or (Field.inRegion_or (inRegion_part? hv name) ?_) inRegion_none
    unfold descriptor?
    split <;> [split_ifs <;> simp; simp]

theorem find?_local (hv : InRegion r v) (name : String) : (find? v name).Local r s s' := by
  refine local_store ?_
  rw [h.asObject? hv]
  split
  · rw [typeMember?_eq h hv]
    exact local_pure h (inRegion_typeMember? hv name)
  · next id p hp =>
    obtain ⟨hid, hobj⟩ := h.of_asObject? hv hp
    rw [typeMember?_eq h hv]
    refine Local.bind (Field.read?_local h hid hobj name) fun {field _ _ _} o hfield => ?_
    split
    · exact local_pure o.alike hfield
    · split_ifs
      · refine (Field.all_local o.alike (o.grows hid) (hobj.mono o.grows)).bind
          fun {entries _ _ _} o' hentries => ?_
        refine (local_new o'.alike (inRegion_mapObject.2 hentries)).bind fun o'' htable => ?_
        exact local_pure o''.alike (inRegion_some.2 htable)
      · exact local_pure o.alike ((inRegion_typeMember? hv name).mono o.grows)

theorem get_local (hv : InRegion r v) (name : String) : (get v name).Local r s s' := by
  refine (find?_local h hv name).bind fun {found _ _ _} o hfound => ?_
  split
  · exact local_pure o.alike (inRegion_some.1 hfound)
  · exact local_noAttribute o.alike (hv.mono o.grows) name

theorem refuse_local (hv : InRegion r v) (name : String) : (refuse v name).Local r s s' := by
  refine local_store ?_
  simp only [h.typeName hv, typeMember?_eq h hv]
  split
  · exact local_fail h rfl
  · split
    · exact local_fail h rfl
    · split
      · exact local_fail h rfl
      · exact local_fail h rfl
      · split
        · exact local_fail h rfl
        · exact local_noAttribute h hv name

theorem fill_local (v : Value) : (fill v).Local r s s' :=
  local_of_ok rfl rfl (outcome_of_eq h rfl rfl h.tag rfl (.single (.assignment v _ _)))
    (inRegion_unit _)

theorem set_local {new : Value} (hv : InRegion r v) (hnew : InRegion r new)
    (name : String) : (set v name new).Local r s s' := by
  refine local_store ?_
  rw [h.asObject? hv]
  cases hfound : s.asObject? v with
  | none =>
    simp only
    split_ifs
    · exact fill_local h new
    · exact refuse_local h hv name
  | some found =>
    obtain ⟨id, o⟩ := found
    obtain ⟨hid, ho⟩ := h.of_asObject? hv hfound
    cases o with
    | list _ | tuple _ | map _ => exact refuse_local h hv name
    | expression e => exact local_fail h rfl
    | morph m added =>
      simp only
      split
      · exact local_fail h rfl
      · refine local_modify h hid (fun _ _ => Field.inRegion_assigned ho hnew name) fun hhooks => ?_
        cases (Store.asObject?_eq_some hfound).2.symm.trans hhooks
    | _ =>
      exact local_modify h hid
        (fun p hp => Field.inRegion_assigned (h.closed id hid p hp) hnew name)
        fun _ => Field.assigned_hooks name new

end Attributes

end Attribute

end TemplateRecovery
