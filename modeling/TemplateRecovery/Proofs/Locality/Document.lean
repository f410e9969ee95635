import TemplateRecovery.Proofs.Locality.Access

/-!
# Documents and hooks stay in their region

The operations of a document build nodes out of what they are given, and the hooks attach expressions
and morphs to places that they are handed.

* `Document.call_local` is about the operations of a document.
* `Machine.Local` are the machines that stay in a region themselves; with such a machine,
  `Hook.call_local` is about all hooks.
-/

namespace TemplateRecovery

open Act Document Binding

variable {v parent element name ps hs template : Value} {id document : ObjectId} {args : List Value}

variable {r : Region} {s s' : Store}

/-! ### Documents -/

namespace Document

section Documents

variable (h : Alike r s s')

include h

theorem expectNode_local (hv : InRegion r v) (operation : String) :
    (expectNode operation v).Local r s s' := by
  refine local_store ?_
  rw [h.asNode? hv]
  split
  · next found hn =>
    obtain ⟨id, n⟩ := found
    exact local_pure h (inRegion_prod.2 (by simpa using h.of_asNode? hv hn))
  · exact local_failShape h hv _

theorem element?_eq (hv : InRegion r v) : element? s' v = element? s v := by
  rw [element?, element?, h.asNode? hv]

theorem inRegion_element? (hv : InRegion r v) {e : Element}
    (he : element? s v = some e) : InRegion r e := by
  unfold element? at he
  split at he
  · next hn =>
    cases he
    obtain ⟨hid, hnode⟩ := h.of_asNode? hv hn
    simp only [inRegion_node, inRegion_element] at hnode
    exact inRegion_documentElement.2 ⟨hid, hnode.1.2.2⟩
  · cases he

theorem expectModifiers_local {e : Element} (he : InRegion r e) :
    e.modifiers.expectList.Local r s s' :=
  Held.expectList_local h (inRegion_documentElement.1 he).2.2.2

theorem expectElement_local (hv : InRegion r v) (operation : String) :
    (expectElement operation v).Local r s s' := by
  refine local_store ?_
  rw [element?_eq h hv]
  split
  · next e he => exact local_pure h (inRegion_element? h hv he)
  · exact local_failShape h hv _

theorem modifyNode_local (hid : id ∈ r) {f : Node → Node}
    (hf : ∀ n, InRegion r n → InRegion r (f n)) : (modifyNode id f).Local r s s' := by
  refine local_modify h hid fun o ho => ?_
  have ho := h.closed id hid o ho
  cases o with
  | node n added =>
    obtain ⟨hn, hadded⟩ := inRegion_nodeObject.1 ho
    exact inRegion_nodeObject.2 ⟨hf n hn, hadded⟩
  | _ => exact ho

theorem modifyShape_local (hid : id ∈ r) {f : Shape → Shape}
    (hf : ∀ shape, InRegion r shape → InRegion r (f shape)) : (modifyShape id f).Local r s s' := by
  refine modifyNode_local h hid fun n hn => ?_
  obtain ⟨shape, children⟩ := n
  obtain ⟨hshape, hchildren⟩ := inRegion_node.1 hn
  exact inRegion_node.2 ⟨hf shape hshape, hchildren⟩

theorem keepChildren_local (hid : id ∈ r) {children : Held (List Value)}
    (hchildren : InRegion r children) : (keepChildren id children).Local r s s' := by
  refine modifyNode_local h hid fun n hn => ?_
  obtain ⟨shape, _⟩ := n
  exact inRegion_node.2 ⟨(inRegion_node.1 hn).1, hchildren⟩

theorem newNode_local {shape : Shape} (hshape : InRegion r shape) : (newNode shape).Local r s s' :=
  local_new h (by simp [hshape])

theorem createElement_local (hd : document ∈ r) {tag ns : Value}
    (htag : InRegion r tag) (hns : InRegion r ns) :
    (createElement document tag ns).Local r s s' := by
  have hspace : namespaceOf s' document = namespaceOf s document := by
    rw [namespaceOf, namespaceOf, h.object document hd]
  have hin : InRegion r (namespaceOf s document) := by
    unfold namespaceOf
    split
    · next ho => exact inRegion_documentObject.1 (h.closed document hd _ ho)
    · exact inRegion_null
  refine local_store ?_
  rw [h.truthy hns, hspace]
  refine newNode_local h (inRegion_element.2 ⟨htag, ?_, by simp⟩)
  split_ifs
  · exact hns
  · exact hin

omit h in
theorem inRegion_adopt (hparent : InRegion r parent) (shape : Shape) (hshape : InRegion r shape) :
    InRegion r (adopt parent shape) := by
  cases shape with
  | placeholder morph _ => exact inRegion_placeholder.2 ⟨(inRegion_placeholder.1 hshape).1, hparent⟩
  | _ => exact hshape

theorem appendChild_local {child : Value} (hparent : InRegion r parent)
    (hchild : InRegion r child) : (appendChild parent child).Local r s s' := by
  refine (expectNode_local h hparent _).bind fun {found _ _ _} o hfound => ?_
  obtain ⟨parentId, ⟨shape, children⟩⟩ := found
  simp only [inRegion_prod, inRegion_id, inRegion_node] at hfound
  refine (expectNode_local o.alike (hchild.mono o.grows) _).bind fun {found' _ _ _} o' hfound' => ?_
  obtain ⟨childId, _⟩ := found'
  simp only [inRegion_prod, inRegion_id] at hfound'
  have hgrows := o.grows.trans o'.grows
  refine (Held.append_local o'.alike (hfound.2.2.mono o'.grows) (hchild.mono hgrows)
    fun held hheld => keepChildren_local o'.alike (o'.grows hfound.1) hheld).bind fun o'' _ => ?_
  have hgrows' := hgrows.trans o''.grows
  refine (modifyShape_local o''.alike (o''.grows hfound'.1)
    (inRegion_adopt (hparent.mono hgrows'))).bind fun o''' _ => ?_
  exact local_pure o'''.alike (hchild.mono (hgrows'.trans o'''.grows))

omit h in
theorem inRegion_withAttributes {attributes : Held Entries} (ha : InRegion r attributes)
    (shape : Shape) (hshape : InRegion r shape) : InRegion r (withAttributes attributes shape) := by
  cases shape with
  | element tag ns _ bound modifiers =>
    simp only [withAttributes, inRegion_element] at hshape ⊢
    exact ⟨hshape.1, hshape.2.1, ha, hshape.2.2.2⟩
  | _ => exact hshape

omit h in
theorem inRegion_withBound {bound : Held (List Value)} (hb : InRegion r bound) (shape : Shape)
    (hshape : InRegion r shape) : InRegion r (withBound bound shape) := by
  cases shape with
  | element tag ns attributes _ modifiers =>
    simp only [withBound, inRegion_element] at hshape ⊢
    exact ⟨hshape.1, hshape.2.1, hshape.2.2.1, hb, hshape.2.2.2.2⟩
  | _ => exact hshape

omit h in
theorem inRegion_withModifiers {modifiers : Held (List Value)} (hm : InRegion r modifiers)
    (shape : Shape) (hshape : InRegion r shape) : InRegion r (withModifiers modifiers shape) := by
  cases shape with
  | element tag ns attributes bound _ =>
    simp only [withModifiers, inRegion_element] at hshape ⊢
    exact ⟨hshape.1, hshape.2.1, hshape.2.2.1, hshape.2.2.2.1, hm⟩
  | _ => exact hshape

theorem setAttribute_local {value : Value} (he : InRegion r element)
    (hname : InRegion r name) (hvalue : InRegion r value) :
    (setAttribute element name value).Local r s s' := by
  refine (expectElement_local h he _).bind fun {e _ _ _} o helement => ?_
  obtain ⟨id, attributes, bound, modifiers⟩ := e
  obtain ⟨hid, hattributes, -⟩ := inRegion_documentElement.1 helement
  refine (local_text o.alike (hvalue.mono o.grows)).bind fun {t _ _ _} o' _ => ?_
  refine Held.bind_local o'.alike (hattributes.mono o'.grows) (hname.mono (o.grows.trans o'.grows))
    (inRegion_str t) fun held hheld => ?_
  exact modifyShape_local o'.alike (o'.grows hid) (inRegion_withAttributes hheld)

theorem childAtIndex_local {node index : Value} (hnode : InRegion r node)
    (hindex : InRegion r index) : (childAtIndex node index).Local r s s' := by
  refine (expectNode_local h hnode _).bind fun {found _ _ _} o hfound => ?_
  obtain ⟨_, ⟨shape, children⟩⟩ := found
  simp only [inRegion_prod, inRegion_id, inRegion_node] at hfound
  refine (Held.length_local o.alike hfound.2.2).bind fun {count _ _ _} o' _ => ?_
  split
  · exact Held.get_local o'.alike (hfound.2.2.mono o'.grows) _
  · exact local_failShape o'.alike (hindex.mono (o.grows.trans o'.grows)) _

theorem childAt_local {node path : Value} (hnode : InRegion r node)
    (hpath : InRegion r path) : (childAt node path).Local r s s' :=
  (Container.items_local h hpath).bind fun o hsteps =>
    local_foldlM o.alike hsteps (hnode.mono o.grows) fun _ halike hb ha =>
      childAtIndex_local halike hb ha

theorem createMorphAt_local {first last : Value} (hparent : InRegion r parent)
    (hfirst : InRegion r first) (hlast : InRegion r last) :
    (createMorphAt parent first last).Local r s s' := by
  refine (expectNode_local h hparent _).bind fun {found _ _ _} o hfound => ?_
  obtain ⟨parentId, ⟨shape, children⟩⟩ := found
  simp only [inRegion_prod, inRegion_id, inRegion_node] at hfound
  refine (Held.length_local o.alike hfound.2.2).bind fun {count _ _ _} o₁ _ => ?_
  have hgrows := o.grows.trans o₁.grows
  split
  · refine (newNode_local o₁.alike (inRegion_placeholder.2
      ⟨inRegion_null, hparent.mono hgrows⟩)).bind fun {slot _ _ _} o₂ hslot => ?_
    have hchildren := hfound.2.2.mono (o₁.grows.trans o₂.grows)
    have hid := o₂.grows (o₁.grows hfound.1)
    refine (Held.splice_local o₂.alike hchildren hslot
      (fun held hheld => keepChildren_local o₂.alike hid hheld) _ _).bind fun o₃ _ => ?_
    refine (local_note o₃.alike _).bind fun o₄ _ => ?_
    exact local_pure o₄.alike (hslot.mono (o₃.grows.trans o₄.grows))
  · refine (local_view o₁.alike (hfirst.mono hgrows)).bind fun o₂ _ => ?_
    exact local_failShape o₂.alike (hlast.mono (hgrows.trans o₂.grows)) _

theorem createAttrMorph_local (he : InRegion r element) (hname : InRegion r name) :
    (createAttrMorph element name).Local r s s' := by
  refine (expectElement_local h he _).bind fun {e _ _ _} o helement => ?_
  obtain ⟨id, attributes, bound, modifiers⟩ := e
  obtain ⟨hid, -, hbound, -⟩ := inRegion_documentElement.1 helement
  refine (local_new o.alike (o := .morph (.attribute name .null element) []) (by
    simp [hname.mono o.grows, he.mono o.grows])).bind fun {morph _ _ _} o₁ hmorph => ?_
  refine (Held.append_local o₁.alike (hbound.mono o₁.grows) hmorph fun held hheld =>
    modifyShape_local o₁.alike (o₁.grows hid) (inRegion_withBound hheld)).bind fun o₂ _ => ?_
  exact local_pure o₂.alike (hmorph.mono o₂.grows)

theorem createElementMorph_local (he : InRegion r element) :
    (createElementMorph element).Local r s s' :=
  (expectElement_local h he _).bind fun o _ =>
    local_new o.alike (inRegion_slotObject.2 ⟨he.mono o.grows, inRegion_nil⟩)

theorem setNamespace_local (hd : document ∈ r) {ns : Value} (hns : InRegion r ns) :
    (setNamespace document ns).Local r s s' := by
  refine local_modify h hd fun o ho => ?_
  have ho := h.closed document hd o ho
  cases o with
  | document _ => exact inRegion_documentObject.2 hns
  | _ => exact ho

theorem call_local (hd : document ∈ r) (method : Method)
    (hargs : InRegion r args) : (call document method args).Local r s s' := by
  unfold call
  split <;> try simp only [inRegion_cons, inRegion_nil, and_true] at hargs
  · exact newNode_local h inRegion_fragment
  · exact createElement_local h hd hargs inRegion_null
  · exact createElement_local h hd hargs.1 hargs.2
  · exact newNode_local h (inRegion_text.2 hargs)
  · exact newNode_local h (inRegion_comment.2 hargs)
  · exact appendChild_local h hargs.1 hargs.2
  · exact (setAttribute_local h hargs.1 hargs.2.1 hargs.2.2).then_null
  · exact (setAttribute_local h hargs.1 hargs.2.2.1 hargs.2.2.2).then_null
  · exact childAt_local h hargs.1 hargs.2
  · exact childAtIndex_local h hargs.1 hargs.2
  · exact createMorphAt_local h hargs.1 hargs.2.1 hargs.2.2
  · exact createMorphAt_local h hargs.1 hargs.2.1 hargs.2.2.1
  · exact createMorphAt_local h hargs.1 hargs.2.1 hargs.2.2
  · exact createMorphAt_local h hargs.1 hargs.2.1 hargs.2.2.1
  · exact createAttrMorph_local h hargs.1 hargs.2
  · exact createAttrMorph_local h hargs.1 hargs.2.1
  · exact createAttrMorph_local h hargs.1 hargs.2
  · exact createAttrMorph_local h hargs.1 hargs.2.1
  · exact createElementMorph_local h hargs
  · exact createElementMorph_local h hargs.1
  · exact local_pure h inRegion_null
  · exact local_pure h inRegion_null
  · exact (setNamespace_local h hd hargs).then_null
  · exact local_pure h inRegion_null
  · exact local_fail h rfl

end Documents

end Document

/-! ### Bindings -/

namespace Binding

theorem bind_local (h : Alike r s s') {slot : ObjectId} (hslot : slot ∈ r) {m : Morph}
    (hm : InRegion r m) : (bind slot m).Local r s s' := by
  refine (local_new h (inRegion_morphObject.2 ⟨hm, inRegion_nil⟩)).bind
    fun {morph _ _ _} o hmorph => ?_
  refine modifyShape_local o.alike (o.grows hslot) fun shape hshape => ?_
  cases shape with
  | placeholder _ parent => exact inRegion_placeholder.2 ⟨hmorph, (inRegion_placeholder.1 hshape).2⟩
  | _ => exact hshape

theorem setValue_local (h : Alike r s s') {target : ObjectId} (htarget : target ∈ r)
    (hv : InRegion r v) : (setValue target v).Local r s s' := by
  refine local_modify h htarget fun o ho => ?_
  have ho := h.closed target htarget o ho
  unfold withValue
  split
  · simp only [inRegion_morphObject, inRegion_attribute] at ho ⊢
    exact ⟨⟨ho.1.1, hv, ho.1.2.2⟩, ho.2⟩
  · exact ho

theorem addModifier_local (h : Alike r s s') {e : Element} (he : InRegion r e)
    {c : HelperCall} (hc : InRegion r c) : (addModifier e c).Local r s s' := by
  obtain ⟨id, attributes, bound, modifiers⟩ := e
  obtain ⟨hid, -, -, hmodifiers⟩ := inRegion_documentElement.1 he
  refine (local_new h (o := .morph (.element c) []) (by simp [hc])).bind
    fun {morph _ _ _} o hmorph => ?_
  exact Held.append_local o.alike (hmodifiers.mono o.grows) hmorph fun held hheld =>
    modifyShape_local o.alike (o.grows hid) (inRegion_withModifiers hheld)

end Binding

/-! ### Hooks -/

/-- A machine that stays in a region: what it is asked for inside, it does inside. -/
structure Machine.Local (m : Machine) : Prop where
  recover : ∀ {r : Region} {s s' : Store}, Alike r s s' → ∀ {v : Value}, InRegion r v →
    (m.recover v).Local r s s'
  call : ∀ {r : Region} {s s' : Store}, Alike r s s' → ∀ {f : Value} {args : List Value},
    InRegion r f → InRegion r args → (m.call f args).Local r s s'

namespace Hook

theorem asExpression_local (h : Alike r s s') (hv : InRegion r v) :
    (asExpression v).Local r s s' := by
  refine local_store ?_
  rw [h.isExpression hv]
  split_ifs
  · exact local_pure h hv
  · exact local_new h (inRegion_literal.2 hv)

theorem params_local (h : Alike r s s') (hv : InRegion r v) : (params v).Local r s s' := by
  refine local_store ?_
  rw [h.array? hv]
  split
  · next items hitems =>
    exact local_mapM h (h.of_array? hv hitems) fun _ halike ha => asExpression_local halike ha
  · exact local_failShape h hv _

theorem hashEntries_local : ∀ {entries : Entries} {done : List (String × Value)} {r : Region}
    {s s' : Store}, Alike r s s' → InRegion r entries → InRegion r done →
    (hashEntries entries done).Local r s s'
  | [], _, _, _, _, h, _, hdone => local_pure h hdone
  | (k, v) :: rest, done, r, s, s', h, hentries, hdone => by
    simp only [inRegion_cons, inRegion_prod] at hentries
    refine (local_text h hentries.1.1).bind fun {key _ _ _} o _ => ?_
    refine (asExpression_local o.alike (hentries.1.2.mono o.grows)).bind fun {e _ _ _} o' he => ?_
    have hgrows := o.grows.trans o'.grows
    exact hashEntries_local o'.alike (hentries.2.mono hgrows)
      (inRegion_set (hdone.mono hgrows) he)

theorem hash_local (h : Alike r s s') (hv : InRegion r v) : (hash v).Local r s s' := by
  refine local_store ?_
  rw [h.entries? hv]
  split
  · exact local_pure h inRegion_nil
  · next entries _ hentries =>
    refine Local.bind (hashEntries_local h (h.of_entries? hv hentries) inRegion_nil)
      fun {named _ _ _} o hnamed => ?_
    exact local_pure o.alike (inRegion_named.2 hnamed)
  · exact local_failShape h hv _

theorem helperName_local (h : Alike r s s') (hook : Hook) (hv : InRegion r v) :
    (helperName hook v).Local r s s' := by
  unfold helperName
  split
  · exact local_pure h (inRegion_string _)
  · exact local_failShape h hv _

theorem helperCall_local (h : Alike r s s') (hook : Hook) (hname : InRegion r name)
    (hps : InRegion r ps) (hhs : InRegion r hs) : (helperCall hook name ps hs).Local r s s' := by
  refine (helperName_local h hook hname).bind fun {n _ _ _} o _ => ?_
  refine (params_local o.alike (hps.mono o.grows)).bind fun {items _ _ _} o₁ hitems => ?_
  refine (hash_local o₁.alike (hhs.mono (o.grows.trans o₁.grows))).bind
    fun {entries _ _ _} o₂ hentries => ?_
  exact local_pure o₂.alike (by simp [hitems.mono o₂.grows, hentries])

theorem expectSlot_local (h : Alike r s s') (hook : Hook) (hv : InRegion r v) :
    (expectSlot hook v).Local r s s' := by
  refine local_store ?_
  rw [h.asPlaceholder? hv]
  split
  · next id hid => exact local_pure h (inRegion_id.2 (h.of_asPlaceholder? hv hid))
  · exact local_failShape h hv _

variable {m : Machine} (hm : m.Local)
include hm

theorem branch?_local (h : Alike r s s') (hv : InRegion r v) : (branch? m v).Local r s s' := by
  unfold branch?
  split
  · exact local_pure h inRegion_null
  · exact hm.recover h hv

omit hm in
/-- A block is bound alike if its templates are recovered alike in whatever stores are reached before. -/
theorem bindBlock_relates {faults : Fault → Fault → Prop} (hrefl : ∀ e, faults e e)
    (h : Alike r s s') {slot inverse : Value} (hslot : InRegion r slot) (hname : InRegion r name)
    (hps : InRegion r ps) (hhs : InRegion r hs)
    (htemplate : RelatesLater faults Same r s s' (m.recover template) (m.recover template))
    (hinverse : RelatesLater faults Same r s s' (branch? m inverse) (branch? m inverse)) :
    Relates faults Same r s s' (bindBlock m slot name ps hs template inverse)
      (bindBlock m slot name ps hs template inverse) := by
  refine ((expectSlot_local h .block hslot).relates hrefl).bind_same fun {id _ _ _} o hid => ?_
  refine ((helperName_local o.alike .block (hname.mono o.grows)).relates hrefl).bind_same
    fun {n _ _ _} o₁ _ => ?_
  split
  · exact (local_fail o₁.alike rfl).relates hrefl
  · refine ((local_note o₁.alike _).relates hrefl).bind_same fun o₂ _ => ?_
    have k₂ := (o.trans o₁).trans o₂
    refine ((params_local o₂.alike (hps.mono k₂.grows)).relates hrefl).bind_same
      fun {items _ _ _} o₃ hitems => ?_
    have k₃ := k₂.trans o₃
    refine ((hash_local o₃.alike (hhs.mono k₃.grows)).relates hrefl).bind_same
      fun {entries _ _ _} o₄ hentries => ?_
    have k₄ := k₃.trans o₄
    refine (htemplate k₄).bind_same fun {primary _ _ _} o₅ hprimary => ?_
    refine (hinverse (k₄.trans o₅)).bind_same fun {alternate _ _ _} o₆ halternate =>
      Local.relates ?_ hrefl
    have g₆ := o₅.grows.trans o₆.grows
    refine bind_local o₆.alike
      (g₆ (o₄.grows (o₃.grows (o₂.grows (o₁.grows (inRegion_id.1 hid)))))) ?_
    simp [hprimary.mono o₆.grows, halternate, hitems.mono (o₄.grows.trans g₆), hentries.mono g₆]

theorem bindBlock_local (h : Alike r s s') {slot inverse : Value} (hslot : InRegion r slot)
    (hname : InRegion r name) (hps : InRegion r ps) (hhs : InRegion r hs)
    (htemplate : InRegion r template) (hinverse : InRegion r inverse) :
    (bindBlock m slot name ps hs template inverse).Local r s s' :=
  bindBlock_relates (fun _ => rfl) h hslot hname hps hhs
    (fun _ _ _ o => hm.recover o.alike (htemplate.mono o.grows))
    fun _ _ _ o => branch?_local hm o.alike (hinverse.mono o.grows)

theorem call_local (h : Alike r s s') (hook : Hook) (hargs : InRegion r args) :
    (call m hook args).Local r s s' := by
  unfold call
  split <;> try simp only [inRegion_cons, inRegion_nil, and_true] at hargs
  · split
    · exact local_new h (by simp)
    · exact local_failShape h hargs _
  · refine (params_local h hargs).bind fun {parts _ _ _} o hparts => ?_
    exact local_new o.alike (by simp [hparts])
  · refine (helperCall_local h .subexpr hargs.1 hargs.2.1 hargs.2.2).bind fun {c _ _ _} o hc => ?_
    exact local_new o.alike (by simp [hc])
  · refine (helperCall_local h .inline hargs.2.1 hargs.2.2.1 hargs.2.2.2).bind
      fun {c _ _ _} o hc => ?_
    refine (expectSlot_local o.alike .inline (hargs.1.mono o.grows)).bind fun {id _ _ _} o₁ hid => ?_
    exact (bind_local o₁.alike (inRegion_id.1 hid)
      (inRegion_inline.2 (hc.mono o₁.grows))).then_null
  · refine local_store ?_
    rw [h.asAttribute? hargs.1]
    split
    · next id hid =>
      refine Local.bind (asExpression_local h hargs.2.2.2) fun {e _ _ _} o he => ?_
      exact (setValue_local o.alike (o.grows (h.of_asAttribute? hargs.1 hid)) he).then_null
    · exact local_failShape h hargs.1 _
  · refine local_store ?_
    rw [element?_eq h hargs.1]
    split
    · next e he =>
      have he := inRegion_element? h hargs.1 he
      refine Local.bind (expectModifiers_local h he) fun o _ => ?_
      refine (helperCall_local o.alike .element (hargs.2.1.mono o.grows) (hargs.2.2.1.mono o.grows)
        (hargs.2.2.2.mono o.grows)).bind fun {c _ _ _} o₁ hc => ?_
      exact (addModifier_local o₁.alike (he.mono (o.grows.trans o₁.grows)) hc).then_null
    · exact local_failShape h hargs.1 _
  · refine (expectSlot_local h .content hargs.1).bind fun {id _ _ _} o hid => ?_
    exact (bind_local o.alike (inRegion_id.1 hid)
      (inRegion_content.2 (hargs.2.mono o.grows))).then_null
  · exact (bindBlock_local hm h hargs.1 hargs.2.1 hargs.2.2.1 hargs.2.2.2.1 hargs.2.2.2.2
      inRegion_null).then_null
  · exact (bindBlock_local hm h hargs.1 hargs.2.1 hargs.2.2.1 hargs.2.2.2.1 hargs.2.2.2.2.1
      hargs.2.2.2.2.2).then_null
  · exact local_fail h rfl

omit hm in
theorem inRegion_written {hook : Hook} {rest : List Value} (hargs : InRegion r args)
    (hrest : written hook args = some rest) : InRegion r rest := by
  unfold written at hrest
  split at hrest <;> cases hrest <;> simp only [inRegion_cons] at hargs ⊢ <;> simp [hargs]

theorem callWhole_local (h : Alike r s s') (hook : Hook) (hargs : InRegion r args) :
    (callWhole m hook args).Local r s s' := by
  unfold callWhole
  split
  · next rest hrest => exact call_local hm h hook (inRegion_written hargs hrest)
  · exact local_fail h rfl

end Hook

/-! ### Templates that render -/

namespace Artifact

theorem member?_local (h : Alike r s s') {artifact : Value} (ha : InRegion r artifact)
    (name : String) : (member? name artifact).Local r s s' := by
  refine local_store ?_
  rw [h.entries? ha]
  split
  · exact local_pure h inRegion_none
  · next entries _ hentries =>
    have he := h.of_entries? ha hentries
    rw [h.findName? he]
    exact local_pure h (Alike.inRegion_find? he)
  · exact Attribute.find?_local h ha name

theorem member_local (h : Alike r s s') {artifact : Value} (ha : InRegion r artifact)
    (name : String) : (member name artifact).Local r s s' :=
  (member?_local h ha name).bind fun o hfound =>
    local_pure o.alike (inRegion_getD hfound inRegion_null)

end Artifact

namespace Hook

theorem expectRendered_local (h : Alike r s s') (hv : InRegion r v) :
    (expectRendered v).Local r s s' := by
  refine local_store ?_
  rw [h.asNode? hv]
  split
  · exact local_pure h hv
  · exact local_failShape h hv _

theorem newEnvironment_local (h : Alike r s s') : newEnvironment.Local r s s' := by
  refine (local_new h (inRegion_documentObject.2 inRegion_null)).bind
    fun {document _ _ _} o hdocument => ?_
  refine (local_new o.alike inRegion_hooksObject).bind fun {hooks _ _ _} o' hhooks => ?_
  exact local_new o'.alike (inRegion_environmentObject.2 ⟨hdocument.mono o'.grows, hhooks⟩)

/-- What calls inside a region has templates recovered inside. -/
theorem recover_local {m : Machine} (hm : m.Local) (h : Alike r s s') (ht : InRegion r template) :
    (recover m template).Local r s s' := by
  refine (Artifact.member_local h ht "render").bind fun {render _ _ _} o hrender => ?_
  refine local_store ?_
  rw [o.alike.isCallable hrender]
  split_ifs
  · refine Local.bind (newEnvironment_local o.alike) fun {environment _ _ _} o₁ henvironment => ?_
    refine (hm.call o₁.alike (hrender.mono o₁.grows) (by simp [henvironment])).bind
      fun {result _ _ _} o₂ hresult => ?_
    exact expectRendered_local o₂.alike hresult
  · exact local_fail o.alike rfl

end Hook

end TemplateRecovery
