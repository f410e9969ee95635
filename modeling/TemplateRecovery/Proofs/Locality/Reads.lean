import TemplateRecovery.Opcode.Raw
import TemplateRecovery.Proofs.Locality
import TemplateRecovery.Proofs.Refusal
import TemplateRecovery.Proofs.Unfolding

/-!
# Reading two stores that agree on a region

Whatever is read from a value of the region is the same in both stores: what kind of object it is, how
it is written out and printed, which key it is, and how it compares with others. What is found on the
way stays in the region.

* `Alike.asObject?` is the one look at the objects from which the others follow.
* `Alike.view`, `Alike.text`, `Alike.sameKey`, `Alike.equal` and `Alike.less` are the deep ones.
* `Ordinary` computations do not fail for a reason of registration.
-/

namespace TemplateRecovery

open Store.Compared Act

variable {v w key : Value} {id : ObjectId} {o : Object} {entries : Entries}

/-- A computation that does not fail for a reason of registration. -/
abbrev Ordinary {α : Type} (x : Except Fault α) : Prop :=
  FailsOnly (fun fault => fault.isOrdinary = true) x

instance : Refuses fun fault => fault.isOrdinary = true where
  wrongType := rfl
  overflow := rfl
  longNumber := rfl
  noAttribute _ _ := rfl
  shape _ := rfl

/-- What is compared of an object is in a region. -/
def Store.Compared.Within (r : Region) (c : Store.Compared) : Prop :=
  InRegion r c.values ∧ InRegion r c.lists ∧ InRegion r c.maps

namespace Alike

variable {r : Region} {s s' : Store} (h : Alike r s s')
include h

/-! ### Objects -/

section Values

variable (hv : InRegion r v)

include hv

theorem asObject? : s'.asObject? v = s.asObject? v := by
  cases v with
  | object id => rw [Store.asObject?, Store.asObject?, h.object id (inRegion_object.1 hv)]
  | _ => rfl

/-- What a value of the region is and holds is in the region too. -/
theorem of_asObject? (ho : s.asObject? v = some (id, o)) : id ∈ r ∧ InRegion r o := by
  cases v with
  | object x =>
    obtain ⟨p, hp, heq⟩ := Option.map_eq_some_iff.1 ho
    cases heq
    have hid := inRegion_object.1 hv
    exact ⟨hid, h.closed id hid o hp⟩
  | _ => cases ho

theorem asNode? : s'.asNode? v = s.asNode? v := by
  rw [Store.asNode?, Store.asNode?, h.asObject? hv]

theorem of_asNode? {n : Node} (hn : s.asNode? v = some (id, n)) : id ∈ r ∧ InRegion r n := by
  unfold Store.asNode? at hn
  split at hn
  · next ho =>
    cases hn
    obtain ⟨hid, ho⟩ := h.of_asObject? hv ho
    exact ⟨hid, (inRegion_nodeObject.1 ho).1⟩
  · cases hn

theorem asPlaceholder? : s'.asPlaceholder? v = s.asPlaceholder? v := by
  rw [Store.asPlaceholder?, Store.asPlaceholder?, h.asNode? hv]

theorem of_asPlaceholder? (hid : s.asPlaceholder? v = some id) : id ∈ r := by
  unfold Store.asPlaceholder? at hid
  split at hid
  · next hn =>
    cases hid
    exact (h.of_asNode? hv hn).1
  · cases hid

theorem asAttribute? : s'.asAttribute? v = s.asAttribute? v := by
  rw [Store.asAttribute?, Store.asAttribute?, h.asObject? hv]

theorem of_asAttribute? (hid : s.asAttribute? v = some id) : id ∈ r := by
  unfold Store.asAttribute? at hid
  split at hid
  · next ho =>
    cases hid
    exact (h.of_asObject? hv ho).1
  · cases hid

theorem isExpression : s'.isExpression v = s.isExpression v := by
  rw [Store.isExpression, Store.isExpression, h.asObject? hv]

theorem array? : s'.array? v = s.array? v := by
  rw [Store.array?, Store.array?, h.asObject? hv]

theorem of_array? {items : List Value} (hitems : s.array? v = some items) : InRegion r items := by
  unfold Store.array? at hitems
  split at hitems
  iterate 2
    · next ho =>
      cases hitems
      exact (h.of_asObject? hv ho).2
  · cases hitems

theorem entries? : s'.entries? v = s.entries? v := by
  rw [Store.entries?, Store.entries?, h.asObject? hv]

theorem of_entries? (hentries : s.entries? v = some entries) : InRegion r entries := by
  unfold Store.entries? at hentries
  split at hentries
  · next ho =>
    cases hentries
    exact inRegion_mapObject.1 (h.of_asObject? hv ho).2
  · cases hentries

theorem typeName : s'.typeName v = s.typeName v := by
  cases v with
  | object id => rw [Store.typeName, Store.typeName, h.object id (inRegion_object.1 hv)]
  | method owner name =>
    cases owner with
    | object id =>
      rw [Store.typeName, Store.typeName, h.object id (inRegion_object.1 (inRegion_method.1 hv))]
    | _ => rfl
  | _ => rfl

theorem isCallable : s'.isCallable v = s.isCallable v := by
  cases v with
  | object id => rw [Store.isCallable, Store.isCallable, h.object id (inRegion_object.1 hv)]
  | _ => rfl

theorem truthy : s'.truthy v = s.truthy v := by
  cases v with
  | object id => rw [Store.truthy, Store.truthy, h.object id (inRegion_object.1 hv)]
  | _ => rfl

/-! ### Views -/

theorem tagOf : s'.tagOf v = s.tagOf v := by
  rw [Store.tagOf, Store.tagOf, h.asNode? hv]

theorem inRegion_tagOf : InRegion r (s.tagOf v) := by
  unfold Store.tagOf
  split
  · next hn =>
    have hnode := (h.of_asNode? hv hn).2
    simp only [inRegion_node, inRegion_element] at hnode
    exact hnode.1.1
  · simp

theorem parentView : s'.parentView v = s.parentView v := by
  cases v with
  | null => rfl
  | _ => simp only [Store.parentView, h.asObject? hv, h.typeName hv]

theorem viewScalar : s'.viewScalar v = s.viewScalar v := by
  cases v with
  | method owner name => rw [Store.viewScalar, Store.viewScalar, h.typeName hv]
  | _ => rfl

omit hv in
theorem inRegion_contents (ho : InRegion r o) : InRegion r (s.contents o) := by
  have hvalues : ∀ v ∈ o.values, InRegion r v := inRegion_list.1 ho
  refine inRegion_list.2 fun v hv => ?_
  rcases Store.mem_values_of_mem_contents hv with hv | ⟨b, hb, rfl⟩
  · exact hvalues v hv
  · exact h.inRegion_tagOf (hvalues b (Object.mem_values_of_mem_backs hb))

omit hv in
theorem viewWithin (fuel : Nat) : ∀ (opened : Store.Opened) (depth : Nat) {v : Value}, InRegion r v →
    s'.viewWithin fuel opened depth v = s.viewWithin fuel opened depth v := by
  induction fuel with
  | zero => exact fun opened depth v hv => h.viewScalar hv
  | succ fuel ih =>
    intro opened depth v hv
    cases v with
    | object id =>
      have hid := inRegion_object.1 hv
      simp only [Store.viewWithin, h.object id hid]
      split
      · next o _ ho =>
        have hobj := h.closed id hid o ho
        rw [Store.viewObject_of_backs (s'.viewWithin fuel ((id, depth) :: opened)) (depth + 1)
          fun b hb => ?_]
        · exact Store.viewObject_congr_at fun v hv =>
            have hin := inRegion_list.1 (h.inRegion_contents hobj) v hv
            ⟨ih _ _ hin, ih _ _ hin⟩
        · have hb := inRegion_list.1 (show InRegion r o.values from hobj) b
            (Object.mem_values_of_mem_backs hb)
          exact ⟨h.tagOf hb, h.parentView hb⟩
      · rfl
    | _ => exact h.viewScalar hv

theorem view : s'.view v = s.view v := by
  rw [Store.view, Store.view, Store.viewFuel, Store.viewFuel, h.size, h.viewWithin _ _ _ hv]

theorem isPrinted : s'.isPrinted v = s.isPrinted v := by
  rw [Store.isPrinted, Store.isPrinted, h.asObject? hv]

omit hv in
omit h in
/-- Two ways to write values out give the same for what is in the region. -/
theorem map_congr {f f' : Value → View} {values : List Value} (hf : ∀ v, InRegion r v → f' v = f v)
    (hv : InRegion r values) : values.map f' = values.map f :=
  List.map_congr_left fun v hmem => hf v (inRegion_list.1 hv v hmem)

omit hv in
theorem treeObject {f g f' g' : Value → View} (hf : ∀ v, InRegion r v → f' v = f v)
    (hg : ∀ v, InRegion r v → g' v = g v) (ho : InRegion r o) :
    s'.treeObject f' g' o = s.treeObject f g o := by
  have hcontents {p : Object} (hp : InRegion r p) : ∀ v ∈ s.contents p, InRegion r v :=
    inRegion_list.1 (h.inRegion_contents hp)
  have hinherited : s.Inherited (InRegion r) := fun id p hid hp =>
    hcontents (h.closed id (inRegion_object.1 hid) p hp)
  have hparts := hinherited.parts (hcontents ho)
  refine Store.treeObject_congr ?_ ?_ ?_
  · exact fun v hv => h.asObject? (hcontents ho v (Store.mem_contents_of_holder s hv))
  · exact fun v hv => hf v (hparts v (List.mem_append_left _ hv))
  · exact fun v hv => hg v (hparts v (List.mem_append_right _ hv))

omit hv in
theorem treeWithin (fuel : Nat) : ∀ (opened : List ObjectId) {v : Value}, InRegion r v →
    s'.treeWithin fuel opened v = s.treeWithin fuel opened v := by
  induction fuel with
  | zero => exact fun _ _ _ => rfl
  | succ fuel ih =>
    intro opened v hv
    unfold Store.treeWithin
    rw [h.asObject? hv, h.view hv]
    split
    · next id o ho =>
      have hobj := (h.of_asObject? hv ho).2
      have hshown : ∀ w, InRegion r w →
          (if s'.isPrinted w then s'.treeWithin fuel (id :: opened) w else s'.view w) =
            if s.isPrinted w then s.treeWithin fuel (id :: opened) w else s.view w := by
        intro w hw
        rw [h.isPrinted hw, ih _ hw, h.view hw]
      have htree := h.treeObject (fun w hw => ih (id :: opened) hw) hshown hobj
      split_ifs
      · rfl
      · cases o with
        | expression e => exact htree
        | morph m added => exact htree
        | node n added => exact htree
        | _ => rfl
    · rfl

theorem tree : s'.tree v = s.tree v := by
  rw [Store.tree, Store.tree, Store.viewFuel, Store.viewFuel, h.size, h.treeWithin _ _ hv]

theorem text : s'.text v = s.text v := by
  rw [Store.text, Store.text, h.isPrinted hv, h.tree hv, h.view hv]

end Values

omit h in
theorem text_ordinary (v : Value) : Ordinary (s.text v) := by
  unfold Store.text
  split_ifs
  · exact (s.tree v).plain_failsOnly (by rfl)
  · exact (s.view v).plain_failsOnly (by rfl)

/-! ### Keys -/

theorem isKeyWithin (fuel : Nat) : ∀ {v : Value}, InRegion r v →
    s'.isKeyWithin fuel v = s.isKeyWithin fuel v := by
  induction fuel with
  | zero => exact fun _ => rfl
  | succ fuel ih =>
    intro v hv
    cases v with
    | object id =>
      have hid := inRegion_object.1 hv
      simp only [Store.isKeyWithin, h.object id hid]
      split
      · next items ho =>
        have hitems := inRegion_list.1 (inRegion_tupleObject.1 (h.closed id hid _ ho))
        rw [Bool.eq_iff_iff, List.all_eq_true, List.all_eq_true]
        exact forall₂_congr fun v hmem => by rw [ih (hitems v hmem)]
      · next ho => exact ih (by simpa using h.closed id hid _ ho)
      · next ho => exact ih (by simpa using h.closed id hid _ ho)
      all_goals rfl
    | _ => rfl

theorem isKey (hv : InRegion r v) : s'.isKey v = s.isKey v := by
  rw [Store.isKey, Store.isKey, h.size, h.isKeyWithin _ hv]

omit h in
/-- Two tests of pairs agree on the items of two lists in the region. -/
theorem all_zip {f g : Value → Value → Bool} {items others : List Value} (hitems : InRegion r items)
    (hothers : InRegion r others) (hfg : ∀ v w, InRegion r v → InRegion r w → f v w = g v w) :
    ((items.zip others).all fun (v, w) => f v w) = (items.zip others).all fun (v, w) => g v w := by
  rw [Bool.eq_iff_iff, List.all_eq_true, List.all_eq_true]
  refine forall₂_congr fun (v, w) hp => ?_
  obtain ⟨hv, hw⟩ := List.of_mem_zip hp
  simp only [hfg v w (inRegion_list.1 hitems _ hv) (inRegion_list.1 hothers _ hw)]

theorem sameWithin (fuel : Nat) : ∀ {v w : Value}, InRegion r v → InRegion r w →
    s'.sameWithin fuel v w = s.sameWithin fuel v w := by
  induction fuel with
  | zero => exact fun _ _ => rfl
  | succ fuel ih =>
    intro v w hv hw
    unfold Store.sameWithin
    rw [h.asObject? hv, h.asObject? hw]
    split_ifs
    · rfl
    · split
      · next ho ho' =>
        rw [all_zip (inRegion_tupleObject.1 (h.of_asObject? hv ho).2)
          (inRegion_tupleObject.1 (h.of_asObject? hw ho').2) fun v w hv hw => ih hv hw]
      · next ho ho' =>
        exact ih (by simpa using (h.of_asObject? hv ho).2) (by simpa using (h.of_asObject? hw ho').2)
      · next ho ho' =>
        exact ih (by simpa using (h.of_asObject? hv ho).2) (by simpa using (h.of_asObject? hw ho').2)
      · rfl

theorem sameKey (hv : InRegion r v) (hw : InRegion r w) : s'.sameKey v w = s.sameKey v w := by
  rw [Store.sameKey, Store.sameKey, h.size, h.sameWithin _ hv hw]

theorem find? (hkey : InRegion r key) (he : InRegion r entries) :
    s'.find? key entries = s.find? key entries := by
  induction entries with
  | nil => rfl
  | cons e rest ih =>
    obtain ⟨k, v⟩ := e
    simp only [inRegion_cons, inRegion_prod] at he
    simp only [Store.find?, Assoc.find?, h.sameKey he.1.1 hkey] at ih ⊢
    rw [ih he.2]

omit h in
theorem inRegion_find? (he : InRegion r entries) : InRegion r (s.find? key entries) := by
  induction entries with
  | nil => exact inRegion_none
  | cons e rest ih =>
    obtain ⟨k, v⟩ := e
    simp only [inRegion_cons, inRegion_prod] at he
    simp only [Store.find?, Assoc.find?] at ih ⊢
    split_ifs
    · exact inRegion_some.2 he.1.2
    · exact ih he.2

theorem insert (hkey : InRegion r key) (he : InRegion r entries) :
    s'.insert key v entries = s.insert key v entries := by
  induction entries with
  | nil => rfl
  | cons e rest ih =>
    obtain ⟨k, w⟩ := e
    simp only [inRegion_cons, inRegion_prod] at he
    simp only [Store.insert, Assoc.insert, h.sameKey he.1.1 hkey] at ih ⊢
    rw [ih he.2]

omit h in
theorem inRegion_insert {κ ν : Type} [Names κ] [Names ν] {same : κ → κ → Bool} {k : κ} {v : ν}
    {entries : List (κ × ν)} (hk : InRegion r k) (hv : InRegion r v) (he : InRegion r entries) :
    InRegion r (Assoc.insert same k v entries) := by
  induction entries with
  | nil => simp [Assoc.insert, hk, hv]
  | cons e rest ih =>
    obtain ⟨k, w⟩ := e
    simp only [inRegion_cons, inRegion_prod] at he
    rw [Assoc.insert]
    split_ifs
    · simp [he, hv]
    · simp [he, ih he.2]

theorem erase (hkey : InRegion r key) (he : InRegion r entries) :
    s'.erase key entries = s.erase key entries := by
  refine List.filter_congr fun e hmem => ?_
  have hkeys : InRegion r e.1 := (inRegion_prod.1 (inRegion_list.1 he e hmem)).1
  rw [h.sameKey hkeys hkey]

omit h in
theorem inRegion_erase (he : InRegion r entries) : InRegion r (s.erase key entries) :=
  he.subset (List.filter_subset_self _)

theorem findName? {name : String} (he : InRegion r entries) :
    s'.findName? name entries = s.findName? name entries :=
  h.find? (by simp) he

/-! ### Equality and order -/

theorem heldItems? {held : Held (List Value)} (hheld : InRegion r held) :
    s'.heldItems? held = s.heldItems? held ∧ InRegion r (s.heldItems? held) := by
  cases held with
  | own items => exact ⟨rfl, by simpa [Store.heldItems?] using hheld⟩
  | shared v =>
    have hv := inRegion_sharedItems.1 hheld
    refine ⟨h.array? hv, ?_⟩
    simp only [Store.heldItems?]
    cases hitems : s.array? v with
    | none => exact inRegion_none
    | some items => exact inRegion_some.2 (h.of_array? hv hitems)

theorem heldEntries? {held : Held Entries} (hheld : InRegion r held) :
    s'.heldEntries? held = s.heldEntries? held ∧ InRegion r (s.heldEntries? held) := by
  cases held with
  | own entries => exact ⟨rfl, by simpa [Store.heldEntries?] using hheld⟩
  | shared v =>
    have hv := inRegion_sharedEntries.1 hheld
    refine ⟨h.entries? hv, ?_⟩
    simp only [Store.heldEntries?]
    cases hentries : s.entries? v with
    | none => exact inRegion_none
    | some entries => exact inRegion_some.2 (h.of_entries? hv hentries)

theorem comparedCall {c : HelperCall} {more : List Value} (hc : InRegion r c)
    (hmore : InRegion r more) :
    s'.comparedCall c more = s.comparedCall c more ∧ (s.comparedCall c more).Within r := by
  obtain ⟨name, params, hash⟩ := c
  simp only [inRegion_call] at hc
  obtain ⟨hname, hparams, hhash⟩ := hc
  obtain ⟨hparams, hparams'⟩ := h.heldItems? hparams
  obtain ⟨hhash, hhash'⟩ := h.heldEntries? hhash
  simp [Store.comparedCall, Within, hparams, hhash, hname, hmore, hparams', hhash']

theorem compared? (ho : InRegion r o) :
    s'.compared? o = s.compared? o ∧ ∀ c, s.compared? o = some c → c.Within r := by
  have hsome : ∀ c d : Store.Compared, d.Within r → some d = some c → c.Within r := by
    rintro c d hd ⟨⟩
    exact hd
  have hcall : ∀ (c : HelperCall) (more : List Value), InRegion r c → InRegion r more →
      some (s'.comparedCall c more) = some (s.comparedCall c more) ∧
        ∀ d, some (s.comparedCall c more) = some d → d.Within r := by
    intro c more hc hmore
    obtain ⟨heq, hin⟩ := h.comparedCall hc hmore
    exact ⟨by rw [heq], fun d => hsome d _ hin⟩
  cases o with
  | list items => exact ⟨rfl, fun c => hsome c _ (by simpa [Within] using ho)⟩
  | tuple items => exact ⟨rfl, fun c => hsome c _ (by simpa [Within] using ho)⟩
  | map entries => exact ⟨rfl, fun c => hsome c _ (by simpa [Within] using ho)⟩
  | record fields =>
    refine ⟨rfl, fun c => hsome c _ ?_⟩
    simp only [Within, inRegion_nil, inRegion_cons, inRegion_some, true_and, and_true]
    exact inRegion_named.2 (inRegion_recordObject.1 ho)
  | expression e =>
    cases e with
    | literal v | path v => exact ⟨rfl, fun c => hsome c _ (by simpa [Within] using ho)⟩
    | concat parts =>
      obtain ⟨heq, hin⟩ := h.heldItems? (inRegion_concat.1 (inRegion_expressionObject.1 ho))
      exact ⟨by simp only [Store.compared?, heq], fun c => hsome c _ (by simpa [Within] using hin)⟩
    | subexpr c => exact hcall c [] (by simpa using ho) (by simp)
  | morph m added =>
    replace ho := (inRegion_morphObject.1 ho).1
    cases m with
    | inline c | element c => exact hcall c [] (by simpa using ho) (by simp)
    | «attribute» key value owner =>
      simp only [inRegion_attribute] at ho
      exact ⟨rfl, fun c => hsome c _ (by simp [Within, ho])⟩
    | content v => exact ⟨rfl, fun c => hsome c _ (by simpa [Within] using ho)⟩
    | block c primary alternate =>
      simp only [inRegion_block] at ho
      exact hcall c [primary, alternate] ho.2.2 (by simp [ho])
  | environment dom table => exact ⟨rfl, fun c => hsome c _ (by simpa [Within] using ho)⟩
  | _ => exact ⟨rfl, fun c hc => by cases hc⟩

section Equal

variable {f g : Value → Value → Bool} (hfg : ∀ v w, InRegion r v → InRegion r w → f v w = g v w)
include hfg

omit h in
theorem equalItems {a b : List Value} (ha : InRegion r a) (hb : InRegion r b) :
    Store.equalItems f a b = Store.equalItems g a b := by
  rw [Store.equalItems, Store.equalItems, all_zip ha hb hfg]

theorem equalEntries {a b : Entries} (ha : InRegion r a) (hb : InRegion r b) :
    s'.equalEntries f a b = s.equalEntries g a b := by
  unfold Store.equalEntries
  congr 1
  rw [Bool.eq_iff_iff, List.all_eq_true, List.all_eq_true]
  refine forall₂_congr fun (k, v) hmem => ?_
  obtain ⟨hk, hv⟩ := inRegion_prod.1 (inRegion_list.1 ha (k, v) hmem)
  simp only [h.find? hk hb]
  have hfound : InRegion r (s.find? k b) := inRegion_find? hb
  cases hw : s.find? k b with
  | none => rfl
  | some w =>
    rw [hw, inRegion_some] at hfound
    simp only [hfg v w hv hfound]

end Equal

omit h in
/-- Comparing optional contents one by one. -/
theorem all_bothEqual {α : Type} [Names α] {f g : α → α → Bool} {xs ys : List (Option α)}
    (hxs : InRegion r xs) (hys : InRegion r ys)
    (hfg : ∀ a b, InRegion r a → InRegion r b → f a b = g a b) :
    ((xs.zip ys).all fun (x, y) => Store.bothEqual f x y) =
      (xs.zip ys).all fun (x, y) => Store.bothEqual g x y := by
  rw [Bool.eq_iff_iff, List.all_eq_true, List.all_eq_true]
  refine forall₂_congr fun (x, y) hp => ?_
  obtain ⟨hx, hy⟩ := List.of_mem_zip hp
  have hx := inRegion_list.1 hxs x hx
  have hy := inRegion_list.1 hys y hy
  cases x with
  | none => rfl
  | some a =>
    cases y with
    | none => rfl
    | some b => simp only [Store.bothEqual, hfg a b (inRegion_some.1 hx) (inRegion_some.1 hy)]

theorem equalWithin (fuel : Nat) : ∀ {v w : Value}, InRegion r v → InRegion r w →
    s'.equalWithin fuel v w = s.equalWithin fuel v w := by
  induction fuel with
  | zero => exact fun _ _ => rfl
  | succ fuel ih =>
    intro v w hv hw
    have hfg : ∀ v w, InRegion r v → InRegion r w →
        s'.equalWithin fuel v w = s.equalWithin fuel v w := fun v w => ih
    unfold Store.equalWithin
    rw [h.asObject? hv, h.asObject? hw]
    split_ifs
    · rfl
    · split
      · next a _ b ho ho' =>
        obtain ⟨ha, hain⟩ := h.compared? (h.of_asObject? hv ho).2
        obtain ⟨hb, hbin⟩ := h.compared? (h.of_asObject? hw ho').2
        rw [ha, hb]
        split_ifs
        · split
          · next x y hx hy =>
            obtain ⟨hxv, hxl, hxm⟩ := hain x hx
            obtain ⟨hyv, hyl, hym⟩ := hbin y hy
            rw [equalItems hfg hxv hyv, all_bothEqual hxl hyl fun a b ha hb => equalItems hfg ha hb,
              all_bothEqual hxm hym fun a b ha hb => h.equalEntries hfg ha hb]
          · rfl
        · rfl
      · rfl

theorem equal (hv : InRegion r v) (hw : InRegion r w) : s'.equal v w = s.equal v w := by
  rw [Store.equal, Store.equal, h.size, h.equalWithin _ hv hw]

theorem lessItems {f g : Value → Value → Except Fault Bool}
    (hfg : ∀ v w, InRegion r v → InRegion r w → f v w = g v w) :
    ∀ {a b : List Value}, InRegion r a → InRegion r b →
      Order.lessItems s'.equal f a b = Order.lessItems s.equal g a b
  | [], [], _, _ => rfl
  | [], _ :: _, _, _ => rfl
  | _ :: _, [], _, _ => rfl
  | v :: rest, w :: others, ha, hb => by
    simp only [inRegion_cons] at ha hb
    rw [Order.lessItems, Order.lessItems, h.equal ha.1 hb.1, lessItems hfg ha.2 hb.2,
      hfg v w ha.1 hb.1]

theorem lessWithin (fuel : Nat) : ∀ {v w : Value}, InRegion r v → InRegion r w →
    Order.lessWithin s' fuel v w = Order.lessWithin s fuel v w := by
  induction fuel with
  | zero => exact fun _ _ => rfl
  | succ fuel ih =>
    intro v w hv hw
    unfold Order.lessWithin
    split
    · rfl
    · rfl
    · rw [h.asObject? hv, h.asObject? hw]
      split
      · next ho ho' =>
        exact h.lessItems (fun v w => ih) (inRegion_listObject.1 (h.of_asObject? hv ho).2)
          (inRegion_listObject.1 (h.of_asObject? hw ho').2)
      · next ho ho' =>
        exact h.lessItems (fun v w => ih) (inRegion_tupleObject.1 (h.of_asObject? hv ho).2)
          (inRegion_tupleObject.1 (h.of_asObject? hw ho').2)
      · rfl

theorem less (hv : InRegion r v) (hw : InRegion r w) : Order.less s' v w = Order.less s v w := by
  rw [Order.less, Order.less, h.size, h.lessWithin _ hv hw]

omit h in
theorem lessItems_ordinary {equal : Value → Value → Bool} {less : Value → Value → Except Fault Bool}
    (hless : ∀ v w, Ordinary (less v w)) :
    ∀ a b : List Value, Ordinary (Order.lessItems equal less a b)
  | [], [] => failsOnly_ok _
  | [], _ :: _ => failsOnly_ok _
  | _ :: _, [] => failsOnly_ok _
  | v :: rest, w :: others => by
    rw [Order.lessItems]
    split_ifs
    · exact lessItems_ordinary hless rest others
    · exact hless v w

omit h in
theorem less_ordinary (v w : Value) : Ordinary (Order.less s v w) := by
  have hwithin : ∀ (fuel : Nat) (v w : Value), Ordinary (Order.lessWithin s fuel v w) := by
    intro fuel
    induction fuel with
    | zero => exact fun v w => failsOnly_error rfl
    | succ fuel ih =>
      intro v w
      unfold Order.lessWithin
      split
      · exact failsOnly_ok _
      · split
        · exact failsOnly_ok _
        · exact failsOnly_error rfl
      · split
        · exact lessItems_ordinary ih _ _
        · exact lessItems_ordinary ih _ _
        · split
          · exact failsOnly_ok _
          · exact failsOnly_error rfl
  exact hwithin _ v w

theorem orderInsert (hv : InRegion r v) : ∀ {values : List Value}, InRegion r values →
    Order.insert s' v values = Order.insert s v values
  | [], _ => rfl
  | w :: rest, hvalues => by
    simp only [inRegion_cons] at hvalues
    rw [Order.insert, Order.insert, h.less hv hvalues.1, orderInsert hv hvalues.2]

omit h in
theorem orderInsert_ordinary (v : Value) : ∀ values : List Value, Ordinary (Order.insert s v values)
  | [] => failsOnly_ok _
  | w :: rest => by
    rw [Order.insert]
    refine (less_ordinary v w).bind fun first => ?_
    split_ifs
    · exact failsOnly_ok _
    · exact (orderInsert_ordinary v rest).bind fun _ => failsOnly_ok _

omit h in
theorem inRegion_orderInsert (hv : InRegion r v) : ∀ {values sorted : List Value},
    InRegion r values → Order.insert s v values = .ok sorted → InRegion r sorted
  | [], sorted, _, hsorted => by
    cases hsorted
    simp [hv]
  | w :: rest, sorted, hvalues, hsorted => by
    simp only [inRegion_cons] at hvalues
    rw [Order.insert] at hsorted
    cases hless : Order.less s v w with
    | error fault => rw [hless] at hsorted; cases hsorted
    | ok first =>
      rw [hless] at hsorted
      cases first with
      | true =>
        cases hsorted
        simp [hv, hvalues]
      | false =>
        cases hrest : Order.insert s v rest with
        | error fault =>
          simp [hrest, bind, Except.bind] at hsorted
        | ok others =>
          have hothers := inRegion_orderInsert hv hvalues.2 hrest
          simp only [hrest, bind, Except.bind, Bool.false_eq_true, if_false, pure, Except.pure,
            Except.ok.injEq] at hsorted
          rw [← hsorted]
          simp [hvalues, hothers]

/-- Sorting compares in the same way, gives what was sorted, and is refused only by comparing. -/
theorem sort {values : List Value} (hvalues : InRegion r values) :
    Order.sort s' values = Order.sort s values ∧
      (∀ sorted, Order.sort s values = .ok sorted → InRegion r sorted) := by
  have hfold : ∀ (values done : List Value), InRegion r values → InRegion r done →
      values.foldlM (fun sorted v => Order.insert s' v sorted) done =
          values.foldlM (fun sorted v => Order.insert s v sorted) done ∧
        ∀ sorted, values.foldlM (fun sorted v => Order.insert s v sorted) done = .ok sorted →
          InRegion r sorted := by
    intro values
    induction values with
    | nil =>
      rintro done - hdone
      rw [List.foldlM_nil, List.foldlM_nil]
      refine ⟨rfl, ?_⟩
      rintro sorted ⟨⟩
      exact hdone
    | cons v rest ih =>
      intro done hvalues hdone
      simp only [inRegion_cons] at hvalues
      rw [List.foldlM_cons, List.foldlM_cons, h.orderInsert hvalues.1 hdone]
      cases hinsert : Order.insert s v done with
      | error fault =>
        refine ⟨?_, fun sorted hsorted => by cases hsorted⟩
        show (Except.error fault : Except Fault (List Value)) = .error fault
        rfl
      | ok more => exact ih more hvalues.2 (inRegion_orderInsert hvalues.1 hdone hinsert)
  exact hfold values [] hvalues inRegion_nil

omit h in
theorem sort_ordinary (values : List Value) : Ordinary (Order.sort s values) := by
  have hfold : ∀ values done : List Value,
      Ordinary (values.foldlM (fun sorted v => Order.insert s v sorted) done) := by
    intro values
    induction values with
    | nil => exact fun done => failsOnly_ok _
    | cons v rest ih =>
      intro done
      rw [List.foldlM_cons]
      exact (orderInsert_ordinary v done).bind ih
  exact hfold values []

omit h in
/-- A choice among values that compares them in turn. -/
theorem extreme {test : Store → Value → Value → Except Fault Bool}
    {pick : Store → Value → List Value → Except Fault Value}
    (hnil : ∀ s v, pick s v [] = .ok v)
    (hcons : ∀ s v w rest, pick s v (w :: rest) = test s v w >>= fun b =>
      pick s (if b then w else v) rest)
    (htest : ∀ v w, InRegion r v → InRegion r w → test s' v w = test s v w) :
    ∀ {rest : List Value} {v : Value}, InRegion r v → InRegion r rest →
      pick s' v rest = pick s v rest ∧ ∀ best, pick s v rest = .ok best → InRegion r best := by
  intro rest
  induction rest with
  | nil =>
    intro v hv _
    rw [hnil, hnil]
    refine ⟨rfl, ?_⟩
    rintro best ⟨⟩
    exact hv
  | cons w rest ih =>
    intro v hv hrest
    simp only [inRegion_cons] at hrest
    rw [hcons, hcons, htest v w hv hrest.1]
    cases test s v w with
    | error fault =>
      refine ⟨?_, fun best hbest => by cases hbest⟩
      show (Except.error fault : Except Fault Value) = .error fault
      rfl
    | ok b =>
      refine ih (v := if b then w else v) ?_ hrest.2
      split_ifs
      · exact hrest.1
      · exact hv

omit h in
theorem extreme_ordinary {test : Store → Value → Value → Except Fault Bool}
    {pick : Store → Value → List Value → Except Fault Value}
    (hnil : ∀ s v, pick s v [] = .ok v)
    (hcons : ∀ s v w rest, pick s v (w :: rest) = test s v w >>= fun b =>
      pick s (if b then w else v) rest)
    (htest : ∀ v w, Ordinary (test s v w)) (rest : List Value) :
    ∀ v, Ordinary (pick s v rest) := by
  induction rest with
  | nil => exact fun v => by rw [hnil]; exact failsOnly_ok _
  | cons w rest ih => exact fun v => by rw [hcons]; exact (htest v w).bind fun b => ih _

/-! ### Arrays -/

theorem rawWithin (fuel : Nat) : ∀ {v : Value}, InRegion r v →
    Raw.ofValueWithin s' fuel v = Raw.ofValueWithin s fuel v := by
  induction fuel with
  | zero => exact fun _ => rfl
  | succ fuel ih =>
    intro v hv
    unfold Raw.ofValueWithin
    rw [h.asObject? hv]
    split
    · next ho =>
      have hitems := inRegion_list.1 (inRegion_listObject.1 (h.of_asObject? hv ho).2)
      rw [List.map_congr_left fun v hmem => ih (hitems v hmem)]
    · next ho =>
      have hitems := inRegion_list.1 (inRegion_tupleObject.1 (h.of_asObject? hv ho).2)
      rw [List.map_congr_left fun v hmem => ih (hitems v hmem)]
    · rfl

theorem raw (hv : InRegion r v) : Raw.ofValue s' v = Raw.ofValue s v := by
  rw [Raw.ofValue, Raw.ofValue, h.size, h.rawWithin _ hv]

end Alike

/-! ### Actions that read -/

namespace Act

variable {α : Type} [Names α] {r : Region} {s s' : Store} (h : Alike r s s')
include h

theorem local_text (hv : InRegion r v) : (text v).Local r s s' := by
  refine local_store ?_
  rw [h.text hv]
  exact local_lift h (fun _ _ => inRegion_string _) (Alike.text_ordinary v)

theorem local_written (v : View) : (lift (Fault.written v)).Local r s s' :=
  local_lift h (fun _ _ => inRegion_string _) (written_failsOnly v)

theorem local_view (hv : InRegion r v) : (view v).Local r s s' :=
  local_of_ok rfl (by rw [view, h.view hv]) (h.outcome (fills_of_eq rfl rfl)) (inRegion_view _)

theorem local_failShape (hv : InRegion r v) (cause : View → ShapeFault) :
    (failShape cause v : Act α).Local r s s' :=
  local_of_error rfl (by rw [failShape, h.view hv])
    (h.outcome ((records_of_isOrdinary (Fault.isOrdinary_ofShape _)).2 (fills_of_eq rfl rfl)))

theorem local_noKey (hv : InRegion r v) : (noKey v : Act α).Local r s s' :=
  local_of_error rfl (by rw [noKey, h.view hv]) (h.outcome (fills_of_eq rfl rfl))

theorem local_noAttribute (hv : InRegion r v) (name : String) :
    (noAttribute v name : Act α).Local r s s' := by
  have hname := h.typeName hv
  have hfail : ∀ e : Fault, e.isOrdinary = true → Outcome r s s' r s s' (some e) :=
    fun e he => h.outcome ((records_of_isOrdinary he).2 (fills_of_eq rfl rfl))
  cases v with
  | typeObject typeName => exact local_of_error rfl rfl (hfail _ rfl)
  | registrar => exact local_of_error rfl rfl (hfail _ rfl)
  | _ => exact local_of_error rfl (by simp only [noAttribute, hname]) (hfail _ rfl)

end Act

end TemplateRecovery
