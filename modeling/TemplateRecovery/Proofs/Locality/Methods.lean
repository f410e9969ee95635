import TemplateRecovery.Proofs.Locality.Access

/-!
# The functions of values stay in their region

Every function of a value, and every function and type that a program can see, works on the arguments
it is given. None of them knows anything of the store but what its arguments lead to.

* `Method.callText_local`, `Method.callList_local`, `Method.callMap_local` and their like are about
  the functions of one kind of value.
* `Builtin.callFunction_local` and `Builtin.construct_local` are about built-in functions and types.
-/

namespace TemplateRecovery

open Act Container

variable {v key : Value} {args items : List Value} {id : ObjectId} {entries : Entries}

variable {r : Region} {s s' : Store} (h : Alike r s s')

include h

namespace Method

/-! ### Strings -/

omit h in
theorem inRegion_textValue (cs : List Char) : InRegion r (textValue cs) := inRegion_str _

theorem newTexts_local (texts : List (List Char)) : (newTexts texts).Local r s s' := by
  refine local_new h (inRegion_listObject.2 (inRegion_list.2 fun v hv => ?_))
  obtain ⟨cs, _, rfl⟩ := List.mem_map.1 hv
  exact inRegion_textValue cs

theorem strip_local (f : (Char → Bool) → List Char → List Char) (cs : List Char)
    (args : List Value) : (strip f cs args).Local r s s' := by
  unfold strip
  split
  · exact local_pure h (inRegion_textValue _)
  · exact local_fail h rfl

omit h in
theorem stringsOf_local : ∀ {values : List Value} {r : Region} {s s' : Store}, Alike r s s' →
    (stringsOf values).Local r s s'
  | [], _, _, _, h => local_pure h inRegion_nil
  | v :: rest, r, s, s', h => by
    cases v with
    | str t =>
      refine (stringsOf_local h).bind fun {strings _ _ _} o _ => ?_
      exact local_pure o.alike (inRegion_list.2 fun _ _ => inRegion_string _)
    | _ => exact local_fail h rfl

theorem wordOf_local (v : Value) : (wordOf v).Local r s s' := by
  unfold wordOf
  split
  · split_ifs
    · exact local_fail h rfl
    · exact local_pure h (inRegion_int _)
  · exact local_fail h rfl

theorem timesOf_local {long : Fault} (hlong : long.isOrdinary = true)
    (length : Nat) (v : Value) : (timesOf long length v).Local r s s' := by
  refine (wordOf_local h v).bind fun o _ => ?_
  split_ifs
  · exact local_fail o.alike hlong
  · exact local_pure o.alike (inRegion_nat _)

theorem limitOf_local (length : Nat) (v : Value) : (limitOf length v).Local r s s' :=
  (wordOf_local h v).bind fun o _ => local_pure o.alike (inRegion_nat _)

theorem startOf_local (length : Nat) (v : Value) : (startOf length v).Local r s s' := by
  unfold startOf
  split
  · exact local_pure h (inRegion_nat _)
  · split
    · exact local_pure h (inRegion_nat _)
    · exact local_fail h rfl

theorem stopOf_local (length : Nat) (v : Value) : (stopOf length v).Local r s s' := by
  unfold stopOf
  split
  · exact local_pure h (inRegion_nat _)
  · split
    · exact local_pure h (inRegion_nat _)
    · exact local_fail h rfl

theorem rangeOf_local (length : Nat) (range : List Value) :
    (rangeOf length range).Local r s s' := by
  have hpair : ∀ {r : Region} (p : Nat × Nat), InRegion r p := fun p => by
    obtain ⟨i, j⟩ := p
    simp
  unfold rangeOf
  split
  · exact local_pure h (hpair _)
  · exact (startOf_local h _ _).bind fun o _ => local_pure o.alike (hpair _)
  · refine (startOf_local h _ _).bind fun o _ => ?_
    exact (stopOf_local o.alike _ _).bind fun o' _ => local_pure o'.alike (hpair _)
  · exact local_fail h rfl

theorem callPlainText_local (cs : List Char) (name : String) :
    (callPlainText cs name).Local r s s' := by
  unfold callPlainText allPass textValue
  split <;> first | exact local_pure h (by simp) | exact local_fail h rfl

theorem search_local (find : List Char → List Char → Option Nat)
    (cs part : List Char) (range : List Value) : (search find cs part range).Local r s s' := by
  have hoption : ∀ {r : Region} (x : Option Nat), InRegion r x := fun x => by
    cases x <;> simp
  refine (rangeOf_local h _ range).bind fun {ends _ _ _} o _ => ?_
  obtain ⟨first, last⟩ := ends
  simp only
  split_ifs
  · exact local_pure o.alike (hoption _)
  · exact local_pure o.alike (hoption _)

theorem required_local (found : Option Nat) : (required found).Local r s s' := by
  unfold required
  split
  · exact local_pure h (inRegion_intValue _)
  · exact local_fail h rfl

theorem occurrences_local (cs part : List Char) (range : List Value) :
    (occurrences cs part range).Local r s s' := by
  refine (rangeOf_local h _ range).bind fun {ends _ _ _} o _ => ?_
  obtain ⟨first, last⟩ := ends
  simp only
  split_ifs <;> exact local_pure o.alike (inRegion_intValue _)

omit h in
theorem hasEnd_local (test : List Char → List Char → Bool) (cs : List Char) (range : List Value) :
    ∀ {parts : List Value} {r : Region} {s s' : Store}, Alike r s s' →
      (hasEnd test cs range parts).Local r s s'
  | [], _, _, _, h => local_pure h (inRegion_boolValue _)
  | v :: rest, r, s, s', h => by
    cases v with
    | str part =>
      refine (rangeOf_local h _ range).bind fun {ends _ _ _} o _ => ?_
      obtain ⟨first, last⟩ := ends
      simp only
      split_ifs
      · exact local_pure o.alike (inRegion_boolValue _)
      · exact hasEnd_local test cs range o.alike
    | _ => exact local_fail h rfl

theorem partsOf_local (hv : InRegion r v) : (partsOf v).Local r s s' := by
  refine local_store ?_
  rw [h.asObject? hv]
  split
  · exact local_pure h (by simp)
  · next ho => exact local_pure h (inRegion_tupleObject.1 (h.of_asObject? hv ho).2)
  · exact local_fail h rfl

theorem cut_local (between : List Char → Nat → List Char → List (List Char))
    (blanks : Nat → List Char → List (List Char)) (cs : List Char) (separator : Value)
    (limit : Nat) : (cut between blanks cs separator limit).Local r s s' := by
  unfold cut
  split
  · exact newTexts_local h _
  · split_ifs
    · exact local_fail h rfl
    · exact newTexts_local h _
  · exact local_fail h rfl

theorem cutBy_local (between : List Char → Nat → List Char → List (List Char))
    (blanks : Nat → List Char → List (List Char)) (cs : List Char) (args : List Value) :
    (cutBy between blanks cs args).Local r s s' := by
  unfold cutBy
  split
  · exact cut_local h _ _ _ _ _
  · exact cut_local h _ _ _ _ _
  · exact (limitOf_local h _ _).bind fun o _ => cut_local o.alike _ _ _ _ _
  · exact local_fail h rfl

theorem parted_local (found : Option Nat) {missing : List Value}
    (hmissing : InRegion r missing) (cs part : List Char) :
    (parted found missing cs part).Local r s s' := by
  unfold parted
  split_ifs
  · exact local_fail h rfl
  · split
    · exact local_new h (by simp [textValue])
    · exact local_new h (inRegion_tupleObject.2 hmissing)

theorem fillOf_local (fill : List Value) : (fillOf fill).Local r s s' := by
  unfold fillOf
  split
  · exact local_pure h (inRegion_char _)
  · split
    · exact local_pure h (inRegion_char _)
    · exact local_fail h rfl
  · exact local_fail h rfl

theorem filled_local (share : Int → Nat → Nat × Nat) (cs : List Char)
    (width : Value) (fill : List Value) : (filled share cs width fill).Local r s s' := by
  unfold filled
  split_ifs
  · exact (local_fail h rfl : (Act.fail .wrongType : Act Value).Local r s s')
  · refine (wordOf_local h width).bind fun o _ => ?_
    refine (fillOf_local o.alike fill).bind fun o' _ => ?_
    exact local_pure o'.alike (inRegion_textValue _)

theorem tabSize_local (v : Value) : (tabSize v).Local r s s' := by
  unfold tabSize
  split
  · split_ifs
    · exact local_fail h rfl
    · exact local_pure h (inRegion_nat _)
  · exact local_fail h rfl

theorem encoded_local (name : String) : (encoded name).Local r s s' := by
  unfold encoded
  split_ifs
  · exact local_pure h (inRegion_foreign _ _)
  · exact local_fail h rfl

theorem repeated_local (cs : List Char) (count : Value) : (repeated cs count).Local r s s' :=
  (timesOf_local h rfl _ count).bind fun o _ => local_pure o.alike (inRegion_textValue _)

theorem callText_local (text name : String) (hargs : InRegion r args) :
    (callText text name args).Local r s s' := by
  unfold callText
  split <;> try simp only [inRegion_cons, inRegion_nil, and_true] at hargs
  iterate 3 exact strip_local h _ _ _
  · refine (items_local h hargs).bind fun o _ => ?_
    exact (stringsOf_local o.alike).bind fun o' _ => local_pure o'.alike (inRegion_str _)
  · exact local_pure h (inRegion_textValue _)
  · exact (limitOf_local h _ _).bind fun o _ => local_pure o.alike (inRegion_textValue _)
  · refine (wordOf_local h _).bind fun o _ => ?_
    split <;> exact local_pure o.alike (inRegion_textValue _)
  iterate 3 exact filled_local h _ _ _ _
  · exact local_pure h (inRegion_textValue _)
  · exact (tabSize_local h _).bind fun o _ => local_pure o.alike (inRegion_textValue _)
  iterate 2 exact cutBy_local h _ _ _ _
  · exact newTexts_local h _
  · exact (tabSize_local h _).bind fun o _ => newTexts_local o.alike _
  iterate 2 exact (search_local h _ _ _ _).bind fun o _ => local_pure o.alike (inRegion_intValue _)
  iterate 2 exact (search_local h _ _ _ _).bind fun o _ => required_local o.alike _
  · exact occurrences_local h _ _ _
  iterate 2 exact (partsOf_local h hargs.1).bind fun o _ => hasEnd_local _ _ _ o.alike
  iterate 2 exact local_pure h (inRegion_textValue _)
  iterate 2 exact parted_local h _ (by simp) _ _
  · exact encoded_local h _
  · exact local_pure h (inRegion_boolValue _)
  · exact local_pure h (inRegion_str _)
  iterate 2 exact repeated_local h _ _
  · exact item_local h (inRegion_str _) hargs
  · exact callPlainText_local h _ _
  · exact local_fail h rfl

/-! ### Lists and tuples -/

theorem positionOf?_eq (hv : InRegion r v) (hitems : InRegion r items) :
    positionOf? s' v items = positionOf? s v items := by
  induction items with
  | nil => rw [positionOf?, positionOf?, List.findIdx?_nil, List.findIdx?_nil]
  | cons w rest ih =>
    simp only [inRegion_cons] at hitems
    simp only [positionOf?, List.findIdx?_cons, h.equal hitems.1 hv] at ih ⊢
    rw [ih hitems.2]

theorem countOf_eq (hv : InRegion r v) (hitems : InRegion r items) :
    countOf s' v items = countOf s v items :=
  List.countP_congr fun w hw => by rw [h.equal (inRegion_list.1 hitems w hw) hv]

theorem boundOf_local (length : Nat) (v : Value) : (boundOf length v).Local r s s' := by
  unfold boundOf
  split
  · exact local_pure h (inRegion_nat _)
  · exact local_fail h rfl

theorem positionIn?_local (hv : InRegion r v) {range : List Value}
    (hitems : InRegion r items) (hrange : InRegion r range) :
    (positionIn? v items range).Local r s s' := by
  have hoption : ∀ {r : Region} (x : Option Nat), InRegion r x := fun x => by
    cases x <;> simp
  have hdrop : ∀ n, positionOf? s' v (items.drop n) = positionOf? s v (items.drop n) := fun n =>
    positionOf?_eq h hv (hitems.subset (List.drop_subset n items))
  have htake : ∀ m n, positionOf? s' v ((items.take m).drop n) =
      positionOf? s v ((items.take m).drop n) := fun m n =>
    positionOf?_eq h hv (hitems.subset (List.Subset.trans (List.drop_subset n _) (List.take_subset m items)))
  refine local_store ?_
  simp only [positionOf?_eq h hv hitems, hdrop, htake]
  refine Local.bind (local_mapM h hrange fun _ halike _ => boundOf_local halike _ _) fun o _ => ?_
  split
  iterate 3 exact local_pure o.alike (hoption _)
  exact local_fail o.alike rfl

theorem keepItems_local (hid : id ∈ r) (hitems : InRegion r items) :
    (keepItems id items).Local r s s' := by
  refine Local.then_null (local_modify h hid fun o ho => ?_)
  have ho := h.closed id hid o ho
  cases o with
  | list _ => exact inRegion_listObject.2 hitems
  | _ => exact ho

theorem popItem_local (hid : id ∈ r) (hitems : InRegion r items) (index : Value) :
    (popItem id items index).Local r s s' := by
  refine (wordOf_local h index).bind fun o _ => ?_
  split_ifs
  · exact local_fail o.alike rfl
  · refine (position_local o.alike _ rfl index).bind fun {p _ _ _} o₁ _ => ?_
    have g := o.grows.trans o₁.grows
    refine (keepItems_local o₁.alike (g hid) ((hitems.mono g).subset List.eraseIdx_subset)).bind fun o₂ _ => ?_
    exact local_pure o₂.alike ((inRegion_getElem? hitems p).mono (g.trans o₂.grows))

theorem manyTimes_local (hitems : InRegion r items) (count : Value) :
    (manyTimes items count).Local r s s' := by
  refine (timesOf_local h rfl _ count).bind fun {n _ _ _} o _ => local_pure o.alike ?_
  refine inRegion_list.2 fun v hv => ?_
  obtain ⟨copy, hcopy, hv⟩ := List.mem_flatten.1 hv
  rw [(List.mem_replicate.1 hcopy).2] at hv
  exact (inRegion_list.1 hitems v hv).mono o.grows

theorem callList_local (hid : id ∈ r) (hitems : InRegion r items) (name : String)
    (hargs : InRegion r args) : (callList id items name args).Local r s s' := by
  refine local_store ?_
  split <;> try simp only [inRegion_cons, inRegion_nil, and_true] at hargs
  · exact keepItems_local h hid (by simp [hitems, hargs])
  · exact keepItems_local h hid inRegion_nil
  · exact local_new h (inRegion_listObject.2 hitems)
  · rw [countOf_eq h hargs hitems]
    exact local_pure h (inRegion_intValue _)
  · refine Local.bind (items_local h hargs) fun o hmore => ?_
    exact keepItems_local o.alike (o.grows hid) (inRegion_append.2 ⟨hitems.mono o.grows, hmore⟩)
  · rw [h.view hargs.1]
    refine Local.bind (positionIn?_local h hargs.1 hitems hargs.2) fun o _ => ?_
    split
    · exact local_pure o.alike (inRegion_intValue _)
    · exact (local_written o.alike _).bind fun o₁ _ => local_fail o₁.alike rfl
  · refine Local.bind (wordOf_local h _) fun o _ => ?_
    refine keepItems_local o.alike (o.grows hid) (InRegion.mono ?_ o.grows)
    simp [hitems.subset (List.take_subset _ _), hitems.subset (List.drop_subset _ _), hargs.2]
  · exact popItem_local h hid hitems _
  · exact popItem_local h hid hitems _
  · rw [positionOf?_eq h hargs hitems]
    split
    · exact keepItems_local h hid (hitems.subset List.eraseIdx_subset)
    · exact local_fail h rfl
  · exact keepItems_local h hid (hitems.subset fun v hv => List.mem_reverse.1 hv)
  · obtain ⟨heq, hsorted⟩ := h.sort hitems
    rw [heq]
    refine Local.bind (local_lift h hsorted (Alike.sort_ordinary items)) fun o hdone => ?_
    exact keepItems_local o.alike (o.grows hid) hdone
  · rw [h.asObject? hargs]
    split
    · next ho =>
      exact local_new h (inRegion_listObject.2 (inRegion_append.2
        ⟨hitems, inRegion_listObject.1 (h.of_asObject? hargs ho).2⟩))
    · exact local_fail h rfl
  · refine Local.bind (items_local h hargs) fun o hmore => ?_
    refine (keepItems_local o.alike (o.grows hid)
      (inRegion_append.2 ⟨hitems.mono o.grows, hmore⟩)).bind fun o' _ => ?_
    exact local_pure o'.alike (inRegion_object.2 (o'.grows (o.grows hid)))
  · exact Local.bind (manyTimes_local h hitems _) fun o hmore =>
      local_new o.alike (inRegion_listObject.2 hmore)
  · exact Local.bind (manyTimes_local h hitems _) fun o hmore =>
      local_new o.alike (inRegion_listObject.2 hmore)
  · refine Local.bind (position_local h _ rfl _) fun o _ => ?_
    exact keepItems_local o.alike (o.grows hid) ((hitems.subset List.eraseIdx_subset).mono o.grows)
  · exact item_local h (inRegion_object.2 hid) hargs
  · exact (setItem_local h (inRegion_object.2 hid) hargs.1 hargs.2).then_null
  · exact local_pure h (inRegion_intValue _)
  · rw [positionOf?_eq h hargs hitems]
    exact local_pure h (inRegion_boolValue _)
  · exact local_fail h rfl

theorem callTuple_local (hid : id ∈ r) (hitems : InRegion r items)
    (name : String) (hargs : InRegion r args) : (callTuple id items name args).Local r s s' := by
  refine local_store ?_
  split <;> try simp only [inRegion_cons, inRegion_nil, and_true] at hargs
  · rw [countOf_eq h hargs hitems]
    exact local_pure h (inRegion_intValue _)
  · refine Local.bind (positionIn?_local h hargs.1 hitems hargs.2) fun o _ => ?_
    split
    · exact local_pure o.alike (inRegion_intValue _)
    · exact local_fail o.alike rfl
  · rw [h.asObject? hargs]
    split
    · next ho =>
      exact local_new h (inRegion_tupleObject.2 (inRegion_append.2
        ⟨hitems, inRegion_tupleObject.1 (h.of_asObject? hargs ho).2⟩))
    · exact local_fail h rfl
  · exact Local.bind (manyTimes_local h hitems _) fun o hmore =>
      local_new o.alike (inRegion_tupleObject.2 hmore)
  · exact Local.bind (manyTimes_local h hitems _) fun o hmore =>
      local_new o.alike (inRegion_tupleObject.2 hmore)
  · exact item_local h (inRegion_object.2 hid) hargs
  · exact local_pure h (inRegion_intValue _)
  · rw [positionOf?_eq h hargs hitems]
    exact local_pure h (inRegion_boolValue _)
  · exact local_fail h rfl

/-! ### Mappings -/

theorem keepEntries_local (hid : id ∈ r) (he : InRegion r entries) :
    (keepEntries id entries).Local r s s' := by
  refine Local.then_null (local_modify h hid fun o ho => ?_)
  have ho := h.closed id hid o ho
  cases o with
  | map _ => exact inRegion_mapObject.2 he
  | _ => exact ho

theorem lookUp_local (he : InRegion r entries) {missing : Value}
    (hkey : InRegion r key) (hmissing : InRegion r missing) :
    (lookUp entries key missing).Local r s s' := by
  refine local_store ?_
  rw [h.isKey hkey, h.find? hkey he]
  split_ifs
  · exact local_pure h (inRegion_getD (Alike.inRegion_find? he) hmissing)
  · exact local_fail h rfl

theorem popKey_local (hid : id ∈ r) (he : InRegion r entries)
    (hkey : InRegion r key) {missing : Option Value} (hmissing : InRegion r missing) :
    (popKey id entries key missing).Local r s s' := by
  have hfound : InRegion r (s.find? key entries) := Alike.inRegion_find? he
  refine local_store ?_
  rw [h.isKey hkey, h.find? hkey he, h.erase hkey he]
  split_ifs
  · split
    · next v heq =>
      rw [heq, inRegion_some] at hfound
      refine Local.bind (keepEntries_local h hid (Alike.inRegion_erase he)) fun o _ => ?_
      exact local_pure o.alike (hfound.mono o.grows)
    · exact local_pure h (inRegion_some.1 hmissing)
    · exact local_noKey h hkey
  · exact local_fail h rfl

theorem setDefault_local (hid : id ∈ r) (he : InRegion r entries)
    (hkey : InRegion r key) (hv : InRegion r v) : (setDefault id entries key v).Local r s s' := by
  have hfound : InRegion r (s.find? key entries) := Alike.inRegion_find? he
  refine local_store ?_
  rw [h.isKey hkey, h.find? hkey he, h.insert hkey he]
  split_ifs
  · split
    · next found heq =>
      rw [heq, inRegion_some] at hfound
      exact local_pure h hfound
    · refine Local.bind (keepEntries_local h hid (Alike.inRegion_insert hkey hv he)) fun o _ => ?_
      exact local_pure o.alike (hv.mono o.grows)
  · exact local_fail h rfl

theorem updated_eq {more : Entries} (hmore : InRegion r more) :
    ∀ {entries : Entries}, InRegion r entries →
      updated s' entries more = updated s entries more ∧ InRegion r (updated s entries more) := by
  unfold updated
  induction more with
  | nil => exact fun he => ⟨by rw [List.foldl_nil, List.foldl_nil], he⟩
  | cons e rest ih =>
    intro entries he
    obtain ⟨k, v⟩ := e
    simp only [inRegion_cons, inRegion_prod] at hmore
    simp only [List.foldl_cons, h.insert hmore.1.1 he]
    exact ih hmore.2 (Alike.inRegion_insert hmore.1.1 hmore.1.2 he)

theorem all_isKey_eq {keys : List Value} (hkeys : InRegion r keys) :
    keys.all s'.isKey = keys.all s.isKey := by
  rw [Bool.eq_iff_iff, List.all_eq_true, List.all_eq_true]
  exact forall₂_congr fun v hv => by rw [h.isKey (inRegion_list.1 hkeys v hv)]

theorem fromKeys_local {keys : Value} (hkeys : InRegion r keys)
    (hv : InRegion r v) : (fromKeys keys v).Local r s s' := by
  refine (items_local h hkeys).bind fun {items r' t t'} o hitems => ?_
  have hfold : ∀ {items : List Value} {entries : Entries}, InRegion r' items → InRegion r' entries →
      items.foldl (fun entries k => t'.insert k v entries) entries =
          items.foldl (fun entries k => t.insert k v entries) entries ∧
        InRegion r' (items.foldl (fun entries k => t.insert k v entries) entries) := by
    intro items
    induction items with
    | nil => exact fun _ he => ⟨by rw [List.foldl_nil, List.foldl_nil], he⟩
    | cons k rest ih =>
      intro entries hitems he
      simp only [inRegion_cons] at hitems
      simp only [List.foldl_cons, o.alike.insert hitems.1 he]
      exact ih hitems.2 (Alike.inRegion_insert hitems.1 (hv.mono o.grows) he)
  refine local_store ?_
  rw [all_isKey_eq o.alike hitems, (hfold hitems inRegion_nil).1]
  split_ifs
  · exact local_new o.alike (inRegion_mapObject.2 (hfold hitems inRegion_nil).2)
  · exact local_fail o.alike rfl

theorem callMap_local (hid : id ∈ r) (he : InRegion r entries) (name : String)
    (hargs : InRegion r args) : (callMap id entries name args).Local r s s' := by
  refine local_store ?_
  split <;> try simp only [inRegion_cons, inRegion_nil, and_true] at hargs
  · exact keepEntries_local h hid inRegion_nil
  · exact local_new h (inRegion_mapObject.2 he)
  · exact lookUp_local h he hargs inRegion_null
  · exact lookUp_local h he hargs.1 hargs.2
  iterate 3 exact local_pure h (inRegion_foreign _ _)
  · exact popKey_local h hid he hargs inRegion_none
  · exact popKey_local h hid he hargs.1 (inRegion_some.2 hargs.2)
  · split
    · next k v hlast =>
      have hpair := inRegion_list.1 he (k, v) (List.mem_of_getLast? hlast)
      obtain ⟨hk, hv⟩ := inRegion_prod.1 hpair
      refine Local.bind (keepEntries_local h hid (he.subset (List.dropLast_subset _))) fun o _ => ?_
      exact local_new o.alike (by simp [hk.mono o.grows, hv.mono o.grows])
    · exact local_fail h rfl
  · exact setDefault_local h hid he hargs inRegion_null
  · exact setDefault_local h hid he hargs.1 hargs.2
  · exact local_pure h inRegion_null
  · -- the keys are compared in the store as it was before the argument was read
    refine Local.bind_after (pairs_local h hargs) (pairs_steps (R := Eq) _ s).symm
      fun halike hmore => ?_
    obtain ⟨heq, hin⟩ := updated_eq h hmore he
    rw [heq]
    exact keepEntries_local halike hid hin
  · exact fromKeys_local h hargs inRegion_null
  · exact fromKeys_local h hargs.1 hargs.2
  · exact (popKey_local h hid he hargs inRegion_none).then_null
  · exact item_local h (inRegion_object.2 hid) hargs
  · exact (setItem_local h (inRegion_object.2 hid) hargs.1 hargs.2).then_null
  · exact local_pure h (inRegion_intValue _)
  · rw [h.isKey hargs, h.find? hargs he]
    split_ifs
    · exact local_pure h (inRegion_boolValue _)
    · exact local_fail h rfl
  · exact local_fail h rfl

end Method

end TemplateRecovery
