import TemplateRecovery.Proofs.Attached
import TemplateRecovery.Proofs.Reading

/-!
# Positional binding

The statements of a declarative template are bound to its slots by position. What a statement says can
be told before any of them is carried out: it belongs to one object, and it is a morph or an expression
that can be written out. The loop over the statements attaches just that, and nothing else changes. So
the order of the statements does not matter, as long as the modifiers of each element keep theirs.

* `Opcode.attachment?` is what a statement attaches, told from the store before the loop.
* `Opcode.interpret_attaches` is one statement, `Opcode.bindAll_attaches` the loop.
* `Opcode.shownAt_perm` says which orders of the statements attach the same.
* `positional_binding` puts them together.
-/

namespace TemplateRecovery

open Store Act Document Container Machine Binding

variable {id : ObjectId} {v : Value} {a : Attachment} {bindings : List (Value × Value)}
  {done : List Attachment} {b : Value × Value}

namespace Opcode

variable {live : List ObjectId} {s t : Store}

/-! ### What a statement attaches -/

/-- The name, the parameters and the named arguments that values denote. -/
def readCall? (s : Store) (tag : String) (name ps h : Value) :
    Option (String × List Expr × List (String × Expr)) :=
  (helperName s.display tag (Raw.ofValue s name)).toOption.bind fun name =>
    (params s.display (Raw.ofValue s ps)).toOption.bind fun ps =>
      (hash s.display (Raw.ofValue s h)).toOption.bind fun h => some (name, ps, h)

def templateAt? (s : Store) (templates index : Value) : Option Value :=
  match childTemplate templates index s with
  | .ok template _ => some template
  | .error _ _ => none

def branchTree? (tree : Value → Option View) (s : Store) (templates index : Value) : Option View :=
  (templateAt? s templates index).bind tree

/-- The tree of the second template that a block refers to, if it refers to one. -/
def alternateTree? (tree : Value → Option View) (s : Store) (templates : Value) :
    Value → Option View
  | .null => some .null
  | index => branchTree? tree s templates index

/-- What a statement attaches at a slot, given the trees of the templates; nothing if it fails. -/
def Statement.attachment? (tree : Value → Option View) (s : Store) (slot templates : Value) :
    Statement → Option Attachment
  | .inline name ps h => (readCall? s "inline" name ps h).bind fun c =>
    (s.asPlaceholder? slot).bind fun id =>
      some ⟨id, .inline (.str c.1) (.list (viewAll s.view c.2.1)) (.map (viewHash s.view c.2.2))⟩
  | .attribute value => (s.asAttribute? slot).bind fun id =>
    (param s.display (Raw.ofValue s value)).toOption.bind fun e => some ⟨id, e.view s.view⟩
  | .element name ps h => (s.ownerOf? slot).bind fun owner =>
    (readCall? s "element" name ps h).bind fun c =>
      some ⟨owner.id,
        .modifier (.str c.1) (.list (viewAll s.view c.2.1)) (.map (viewHash s.view c.2.2))⟩
  | .content v => (s.asPlaceholder? slot).bind fun id => some ⟨id, .content (s.view v)⟩
  | .block name ps h template inverse => (s.asPlaceholder? slot).bind fun id =>
    (readCall? s "block" name ps h).bind fun c =>
      (branchTree? tree s templates template).bind fun primary =>
        (alternateTree? tree s templates inverse).bind fun alternate =>
          some ⟨id, .block (.str c.1) (.list (viewAll s.view c.2.1)) (.map (viewHash s.view c.2.2))
            primary alternate⟩

/-- **What a value attaches** when it is interpreted as a statement at a slot. -/
def attachment? (tree : Value → Option View) (s : Store) (templates : Value)
    (binding : Value × Value) : Option Attachment :=
  (statementOf s binding.2).toOption.bind (·.attachment? tree s binding.1 templates)

/-- What the statements of several slots attach, in order; nothing if one of them fails. -/
def attachments? (tree : Value → Option View) (s : Store) (templates : Value) :
    List (Value × Value) → Option (List Attachment)
  | [] => some []
  | binding :: rest => (attachment? tree s templates binding).bind fun a =>
    (attachments? tree s templates rest).bind fun more => some (a :: more)

/-! ### In the middle of the loop -/

/-- A store in the middle of the loop: attachments have been made, all of them to objects that may
change. -/
structure Midway (s : Store) (live : List ObjectId) (done : List Attachment) (u : Store) : Prop where
  attached : s.Attached live done u
  targets : ∀ a ∈ done, a.target ∈ live
  has : HasLive live s

/-- An action gives what it should, or fails if it should give nothing. -/
abbrev Gives {α β : Type} (x : Act α) (s : Store) (spec : Option β) (post : α → Store → β → Prop) :
    Prop := x.MeetsBy (fun _ => True) s spec post

theorem gives_lift {α β γ : Type} {x : Except Fault α} {f : α → Act β} {g : α → Option γ}
    {post : β → Store → γ → Prop} (hf : ∀ a, x = .ok a → Gives (f a) s (g a) post) :
    Gives (lift x >>= f) s (x.toOption.bind g) post := by
  cases x with
  | ok a => exact hf a rfl
  | error fault => exact ⟨fault, s, rfl, trivial⟩

theorem gives_read {α β : Type} (read : Store → Except Fault α) {x : Except Fault α}
    (hread : read s = x) {make : α → Act β} {post : β → Store → α → Prop}
    (hmake : ∀ a, x = .ok a → ∃ b t, make a s = .ok b t ∧ post b t a) :
    Gives (store >>= fun s => lift (read s) >>= make) s x.toOption post := by
  refine MeetsBy.of_bind_ok (rfl : store s = .ok s s) ?_
  rw [hread, ← Option.bind_fun_some x.toOption]
  exact gives_lift hmake

namespace Midway

variable {u : Store} {done : List Attachment} {v : Value}

section Loop

variable (h : Midway s live done u)

include h

theorem extend (hut : u.Extends t) : Midway s live done t :=
  ⟨h.attached.extend hut, h.targets, h.has⟩

theorem frame : ∀ id o, id ∉ live → s.object? id = some o → u.object? id = some o :=
  fun _ _ hid ho => h.attached.object?_eq h.targets hid ho

theorem hasLive : HasLive live u := by
  intro id hid
  obtain ⟨o, ho⟩ := h.has id hid
  obtain ⟨vs, hvs⟩ := h.attached.grown id o ho
  exact ⟨_, hvs⟩

theorem frozen (hv : s.Frozen live v) : u.Frozen live v :=
  (h.attached.denotes h.targets hv).1

theorem view_eq (hv : s.Frozen live v) : u.view v = s.view v :=
  (h.attached.denotes h.targets hv).2

theorem agreeOn : s.display.AgreeOn Eq (s.Frozen live) u.display where
  view _ hv := hv.view_frame h.frame
  text _ hv := .of_eq (hv.text_frame h.frame) fun _ _ => trivial
  shape _ := rfl
  tag _ _ _ := rfl
  long _ _ _ := rfl

theorem alike (hv : s.Frozen live v) :
    ReadAlike Eq (Expr.Holds (s.Frozen live)) (AllHold (s.Frozen live)) (HashHolds (s.Frozen live))
      s.display u.display (Raw.ofValue s v) :=
  readAlike h.agreeOn (kind_holds _) fun _ => hv.of_atom

theorem ofValue_eq (hv : s.Frozen live v) :
    Raw.ofValue u v = Raw.ofValue s v := hv.ofValue_frame h.frame

/-- A parameter is read as before and made an object that is written out as it. -/
theorem paramOf_gives (hv : s.Frozen live v) :
    Gives (paramOf v) u (param s.display (Raw.ofValue s v)).toOption
      fun w t e => u.Extends t ∧ t.Denotes live w (e.view s.view) := by
  have hread := (h.alike hv).param.eq
  rw [← h.ofValue_eq hv] at hread
  refine gives_read (fun s => param s.display (Raw.ofValue s v))
    (hread.trans (by rw [h.ofValue_eq hv])) fun e he => ?_
  have hholds := (h.alike hv).param.of_ok he
  obtain ⟨w, t, hw, hut, hdenotes⟩ := allocate_denotes e u h.hasLive (hholds.mono fun _ => h.frozen)
  rw [e.view_congr (hholds.mono fun _ => h.view_eq)] at hdenotes
  exact ⟨w, t, hw, hut, hdenotes⟩

/-- Parameters are read as before and made objects that are written out as they are. -/
theorem paramsOf_gives (hv : s.Frozen live v) :
    Gives (paramsOf v) u (params s.display (Raw.ofValue s v)).toOption
      fun vs t es => u.Extends t ∧ List.Forall₂ (t.Denotes live) vs (viewAll s.view es) := by
  have hread := (h.alike hv).params.eq
  rw [← h.ofValue_eq hv] at hread
  refine gives_read (fun s => params s.display (Raw.ofValue s v))
    (hread.trans (by rw [h.ofValue_eq hv])) fun es hes => ?_
  have hholds := (h.alike hv).params.of_ok hes
  obtain ⟨vs, t, hvs, hut, hdenotes⟩ := allocateAll_denotes es u h.hasLive
    (allHold_mono (fun _ => h.frozen) es hholds)
  rw [viewAll_congr es (allHold_mono (fun _ => h.view_eq) es hholds)] at hdenotes
  exact ⟨vs, t, hvs, hut, hdenotes⟩

/-- Named arguments are read as before and made entries that are written out as they are. -/
theorem hashOf_gives (hv : s.Frozen live v) :
    Gives (hashOf v) u (hash s.display (Raw.ofValue s v)).toOption
      fun entries t es => u.Extends t ∧ ShownEntries t live entries (viewHash s.view es) := by
  have hread := (h.alike hv).hash.eq
  rw [← h.ofValue_eq hv] at hread
  refine gives_read (fun s => hash s.display (Raw.ofValue s v))
    (hread.trans (by rw [h.ofValue_eq hv])) fun es hes => ?_
  have hholds := (h.alike hv).hash.of_ok hes
  obtain ⟨entries, t, hentries, hut, hdenotes⟩ := allocateHash_denotes es u h.hasLive
    (hashHolds_mono (fun _ => h.frozen) es hholds)
  rw [viewHash_congr es (hashHolds_mono (fun _ => h.view_eq) es hholds)] at hdenotes
  exact ⟨entries, t, hentries, hut, hdenotes⟩

/-- **A helper is read as before** and written out as it was. -/
theorem helperCall_gives (tag : String) {name ps hs : Value}
    (hname : s.Frozen live name) (hps : s.Frozen live ps) (hhs : s.Frozen live hs) :
    Gives (helperCall tag name ps hs) u (readCall? s tag name ps hs) fun c t read =>
      u.Extends t ∧ ShownCall t live c read.1 (viewAll s.view read.2.1) (viewHash s.view read.2.2) := by
  refine MeetsBy.of_bind_ok (rfl : store u = .ok u u) ?_
  rw [h.ofValue_eq hname, (helperName_alike h.agreeOn tag fun _ => hname.of_atom).eq]
  refine gives_lift fun n _ => ?_
  refine (h.paramsOf_gives hps).bind ?_
  rintro vs t es ⟨hut, hvs⟩
  refine ((h.extend hut).hashOf_gives hhs).bind ?_
  rintro entries w hes ⟨htw, hentries⟩
  exact ⟨_, w, rfl, hut.trans htw, vs, entries, rfl, hvs.imp fun _ _ hv => hv.keep htw, hentries⟩

theorem expectSlot_gives (tag : StatementTag) {slot : Value}
    (hslot : s.Present slot) : Gives (expectSlot tag slot) u (s.asPlaceholder? slot)
      fun id t found => id = found ∧ t = u ∧ s.asPlaceholder? slot = some id := by
  refine MeetsBy.of_bind_ok (rfl : store u = .ok u u) ?_
  rw [h.attached.grown.asPlaceholder?_eq hslot]
  cases s.asPlaceholder? slot with
  | none => exact ⟨_, u, rfl, trivial⟩
  | some id => exact ⟨id, u, rfl, rfl, rfl, rfl⟩

theorem attach_new (hid : id ∈ live) {o : Object} {shown : View}
    (howns : o.Owns) (hbacks : o.backs = []) (hcontents : ∀ w ∈ u.contents o, u.Frozen live w)
    (hshown : u.viewObject (fun _ => u.view) 0 o = shown)
    (hat : (u.push o).AttachesAt t id (.object u.next)) :
    s.Attached live (done ++ [⟨id, shown⟩]) t :=
  (h.attached.extend (u.extends_push o)).attach hat hid
    (new_denotes h.hasLive howns hbacks hcontents hshown)

end Loop

end Midway

/-- A template is recovered alike in all stores that agree with one where nothing changes: it gives a
tree that shows none of the changing objects, or it fails, and what was there stays as it was. -/
def RecoversAs (nested : Value → Act Value) (s : Store) (live : List ObjectId) (template : Value)
    (tree : Option View) : Prop :=
  ∀ u, (∀ id o, id ∉ live → s.object? id = some o → u.object? id = some o) → HasLive live u →
    Gives (nested template) u tree fun root t shown => u.Extends t ∧ t.Denotes live root shown

/-- The templates of blocks are an array of templates that are recovered alike. -/
structure Library (nested : Value → Act Value) (s : Store) (live : List ObjectId) (templates : Value)
    (tree : Value → Option View) : Prop where
  array : ∃ items, s.array? templates = some items ∧
    ∀ template ∈ items, RecoversAs nested s live template (tree template)

/-- Where a statement is bound: objects that may change, and an element that owns its modifiers. -/
def Statement.Fits (live : List ObjectId) (s : Store) (slot : Value) : Statement → Prop
  | .attribute _ => ∀ id, s.asAttribute? slot = some id → id ∈ live
  | .element _ _ _ => ∀ owner, s.ownerOf? slot = some owner →
    owner.id ∈ live ∧ ∃ items, owner.modifiers = .own items
  | _ => ∀ id, s.asPlaceholder? slot = some id → id ∈ live

variable {nested : Value → Act Value} {templates : Value} {tree : Value → Option View} {u : Store}
  {done : List Attachment} {slot : Value}

theorem position_cases (length : Nat) (key : Value) :
    (∃ p < length, ∀ missing t, position length missing key t = .ok p t) ∨
      ∀ missing t, ∃ fault, position length missing key t = .error fault t := by
  unfold position
  cases key.index? with
  | none => exact .inr fun _ _ => ⟨_, rfl⟩
  | some i =>
    dsimp only
    split_ifs
    · exact .inr fun _ _ => ⟨_, rfl⟩
    · cases hposition : position? length i with
      | none => exact .inr fun _ _ => ⟨_, rfl⟩
      | some p =>
        refine .inl ⟨p, ?_, fun _ _ => rfl⟩
        simp only [position?] at hposition
        split_ifs at hposition <;> cases hposition <;> omega

/-- An item of an array, or a failure to find it, does not depend on anything else. -/
theorem item_cases (v key : Value) (items : List Value) :
    (∃ w ∈ items, ∀ t : Store, t.array? v = some items → item v key t = .ok w t) ∨
      ∀ t : Store, t.array? v = some items → ∃ fault, item v key t = .error fault t := by
  rcases position_cases items.length key with ⟨p, hp, hposition⟩ | hposition
  · refine .inl ⟨items[p], List.getElem_mem hp, fun t ht => ?_⟩
    have hget : items[p]?.getD .null = items[p] := by rw [List.getElem?_eq_getElem hp]; rfl
    obtain ⟨id, rfl, ho | ho⟩ := array?_eq_some ht
    all_goals
      rw [item, bind_store, asObject?_of_object? ho, ← hget]
      exact bind_of_ok (hposition _ t)
  · refine .inr fun t ht => ?_
    obtain ⟨id, rfl, ho | ho⟩ := array?_eq_some ht
    all_goals
      obtain ⟨fault, hfault⟩ := hposition _ t
      rw [item, bind_store, asObject?_of_object? ho]
      exact ⟨fault, bind_of_error hfault⟩

/-- The template that a block refers to is one of the array, whatever else is in the store. -/
theorem childTemplate_cases (items : List Value) (index : Value) :
    (∃ template ∈ items, ∀ t : Store, t.array? templates = some items →
      childTemplate templates index t = .ok template t) ∨
      ∀ t : Store, t.array? templates = some items →
        ∃ fault, childTemplate templates index t = .error fault t := by
  cases hposition : templatePosition? items.length index with
  | none =>
    refine .inr fun t ht => ?_
    rw [childTemplate, bind_of_ok (length_of_array? ht), hposition]
    exact ⟨_, rfl⟩
  | some p =>
    rcases item_cases templates (.int p) items with ⟨w, hw, hitem⟩ | hitem
    · refine .inl ⟨w, hw, fun t ht => ?_⟩
      rw [childTemplate, bind_of_ok (length_of_array? ht), hposition]
      exact hitem t ht
    · refine .inr fun t ht => ?_
      rw [childTemplate, bind_of_ok (length_of_array? ht), hposition]
      exact hitem t ht

theorem Library.branch_gives (hl : Library nested s live templates tree) (h : Midway s live done u)
    (index : Value) : Gives (branch nested templates index) u (branchTree? tree s templates index)
      fun root t shown => u.Extends t ∧ t.Denotes live root shown := by
  obtain ⟨items, hs, hrecovers⟩ := hl.array
  have hpresent : s.Present templates := by
    obtain ⟨id, rfl, ho | ho⟩ := array?_eq_some hs
    all_goals
      rintro _ ⟨⟩
      exact ⟨_, ho⟩
  have hu : u.array? templates = some items := (h.attached.grown.array?_eq hpresent).trans hs
  unfold branchTree? templateAt?
  rcases childTemplate_cases items index with ⟨template, hmem, htemplate⟩ | hfails
  · rw [htemplate s hs]
    exact MeetsBy.of_bind_ok (htemplate u hu) (hrecovers template hmem u h.frame h.hasLive)
  · obtain ⟨fault, hfault⟩ := hfails s hs
    obtain ⟨fault', hfault'⟩ := hfails u hu
    rw [hfault]
    exact ⟨fault', u, bind_of_error hfault', trivial⟩

theorem Library.branch?_gives (hl : Library nested s live templates tree) (h : Midway s live done u)
    (index : Value) : Gives (branch? nested templates index) u
      (alternateTree? tree s templates index)
      fun root t shown => u.Extends t ∧ t.Denotes live root shown := by
  cases index with
  | null => exact ⟨.null, u, rfl, u.extends_refl, .scalar rfl, rfl⟩
  | _ => exact hl.branch_gives h _

theorem parentOf?_present (hclosed : s.Closed) {w : Value} (hw : s.parentOf? slot = some w) :
    s.Present w := by
  unfold parentOf? at hw
  cases hobject : s.asObject? slot with
  | none => rw [hobject] at hw; cases hw
  | some found =>
    obtain ⟨id, o⟩ := found
    rw [hobject] at hw
    obtain ⟨rfl, ho⟩ := asObject?_eq_some hobject
    have hvalue : Field.value? "parent" o = some w := hw
    have hadded : ∀ added : Fields, added.lookup "parent" = some w → w ∈ added.map (·.2) := by
      intro added hlookup
      obtain ⟨before, after, rfl, -⟩ := List.lookup_eq_some_iff.1 hlookup
      simp
    refine hclosed id o ho w ?_
    cases o with
    | record fields => exact hadded fields hvalue
    | morph m added =>
      cases m with
      | «attribute» key value owner =>
        simp [Field.value?] at hvalue
        simp [Object.values, Morph.values, hvalue]
      | _ =>
        simp [Field.value?, Field.callValue?] at hvalue
        exact List.mem_append_right _ (hadded added hvalue)
    | node n added =>
      obtain ⟨shape, children⟩ := n
      cases shape with
      | placeholder morph parent =>
        simp [Field.value?] at hvalue
        simp [Object.values, Shape.values, hvalue]
      | _ =>
        simp [Field.value?] at hvalue
        exact List.mem_append_right _ (List.mem_append_right _ (hadded added hvalue))
    | slot owner added =>
      simp [Field.value?] at hvalue
      simp [Object.values, hvalue]
    | function f added => exact List.mem_append_right _ (hadded added hvalue)
    | expression e => cases e <;> simp [Field.value?, Field.callValue?] at hvalue
    | document ns => simp [Field.value?] at hvalue
    | environment dom table => simp [Field.value?] at hvalue
    | _ => cases hvalue

/-- The owner of a slot is the same element, perhaps with more modifiers. -/
theorem ownerOf?_own (h : s.Grown u) (hslot : s.Present slot) {owner : Element}
    (howner : s.ownerOf? slot = some owner) {items : List Value}
    (hown : owner.modifiers = .own items) : ∃ w, u.parentOf? slot = some w ∧ ∃ vs,
      element? u w = some { owner with modifiers := .own (items ++ vs) } := by
  obtain ⟨w, hw, helement⟩ := Option.bind_eq_some_iff.1 howner
  exact ⟨w, (h.parentOf?_eq hslot).trans hw, h.element?_own helement hown⟩

theorem ownerOf?_eq_none (h : s.Grown u) (hclosed : s.Closed) (hslot : s.Present slot)
    (howner : s.ownerOf? slot = none) : u.ownerOf? slot = none := by
  rw [ownerOf?, h.parentOf?_eq hslot]
  cases hw : s.parentOf? slot with
  | none => rfl
  | some w =>
    rw [ownerOf?, hw] at howner
    exact h.element?_eq_none (parentOf?_present hclosed hw) howner

/-- **One statement** attaches what it says, or fails if it says nothing. -/
theorem Statement.apply_attaches {st : Statement} (hl : Library nested s live templates tree)
    (h : Midway s live done u) (hclosed : s.Closed) (hslot : s.Present slot)
    (hplain : ∀ v ∈ st.arguments, s.Frozen live v) (hfits : st.Fits live s slot) :
    Gives (st.apply nested slot templates) u (st.attachment? tree s slot templates)
      fun _ t a => s.Attached live (done ++ [a]) t ∧ a.target ∈ live := by
  cases st with
  | inline name ps hs =>
    have hcall := h.helperCall_gives "inline" (hplain name (by simp [arguments]))
      (hplain ps (by simp [arguments])) (hplain hs (by simp [arguments]))
    refine hcall.bind ?_
    rintro c t read ⟨hut, hc⟩
    have ht := h.extend hut
    refine (ht.expectSlot_gives .inline hslot).bind ?_
    rintro id _ _ ⟨rfl, rfl, hid⟩
    obtain ⟨w, hw, hat⟩ := bind_attaches
      ((ht.attached.grown.asPlaceholder?_eq hslot).trans hid) (extends_refl _) (.inline c)
    obtain ⟨hname, hparams, hhash⟩ := hc.views 0
    refine ⟨(), w, hw, ht.attach_new (o := .morph (.inline c) []) (hfits id hid) hc.owns rfl
      hc.frozen ?_ hat, hfits id hid⟩
    simp only [viewObject, hname, hparams, hhash]
  | «attribute» value =>
    refine MeetsBy.of_bind_ok (rfl : store u = .ok u u) ?_
    have htarget := h.attached.grown.asAttribute?_eq hslot
    unfold Statement.attachment?
    rw [htarget]
    cases hid : s.asAttribute? slot with
    | none => exact ⟨_, u, rfl, trivial⟩
    | some id =>
      refine (h.paramOf_gives (hplain value (by simp [arguments]))).bind ?_
      rintro w t e ⟨hut, hdenotes⟩
      obtain ⟨x, hx, hat⟩ := setValue_attaches (htarget.trans hid) hut w
      exact ⟨(), x, hx, (h.extend hut).attached.attach hat (hfits id hid) hdenotes, hfits id hid⟩
  | element name ps hs =>
    have howner := expectOwner_apply slot u
    rw [u.owner_eq slot] at howner
    unfold Statement.attachment?
    cases hs' : s.ownerOf? slot with
    | none =>
      rw [ownerOf?_eq_none h.attached.grown hclosed hslot hs'] at howner
      exact ⟨_, u, bind_of_error howner, trivial⟩
    | some owner =>
      obtain ⟨hid, items, hown⟩ := hfits owner hs'
      obtain ⟨w, hparent, vs, helement⟩ := ownerOf?_own h.attached.grown hslot hs' hown
      rw [ownerOf?, hparent, Option.bind_some, helement] at howner
      refine MeetsBy.of_bind_ok howner ?_
      have hcall := h.helperCall_gives "element" (hplain name (by simp [arguments]))
        (hplain ps (by simp [arguments])) (hplain hs (by simp [arguments]))
      refine hcall.bind ?_
      rintro c t read ⟨hut, hc⟩
      obtain ⟨x, hx, hat⟩ := addModifier_attaches helement rfl hut c
      obtain ⟨hname, hparams, hhash⟩ := hc.views 0
      refine ⟨(), x, hx, (h.extend hut).attach_new (o := .morph (.element c) []) hid hc.owns rfl
        hc.frozen ?_ hat, hid⟩
      simp only [viewObject, hname, hparams, hhash]
  | content v =>
    refine (h.expectSlot_gives .content hslot).bind ?_
    rintro id _ _ ⟨rfl, rfl, hid⟩
    obtain ⟨w, hw, hat⟩ := bind_attaches
      ((h.attached.grown.asPlaceholder?_eq hslot).trans hid) (extends_refl _) (.content v)
    have hv := hplain v (by simp [arguments])
    refine ⟨(), w, hw, h.attach_new (o := .morph (.content v) []) (hfits id hid) trivial rfl ?_ ?_
      hat, hfits id hid⟩
    · intro x hx
      rw [List.mem_singleton.1 hx]
      exact h.frozen hv
    · exact congrArg View.content (h.view_eq hv)
  | block name ps hs template inverse =>
    refine (h.expectSlot_gives .block hslot).bind ?_
    rintro id _ _ ⟨rfl, rfl, hid⟩
    have hcall := h.helperCall_gives "block" (hplain name (by simp [arguments]))
      (hplain ps (by simp [arguments])) (hplain hs (by simp [arguments]))
    refine hcall.bind ?_
    rintro c t read ⟨hut, hc⟩
    refine (hl.branch_gives (h.extend hut) template).bind ?_
    rintro primary w shown ⟨htw, hprimary⟩
    refine (hl.branch?_gives ((h.extend hut).extend htw) inverse).bind ?_
    rintro alternate x shown' ⟨hwx, halternate⟩
    -- recovering a branch keeps what was read before it
    have hux := (hut.trans htw).trans hwx
    have hx := h.extend hux
    have hc' := hc.keep (htw.trans hwx)
    have hprimary' := hprimary.keep hwx
    obtain ⟨y, hy, hat⟩ := bind_attaches
      ((h.attached.grown.asPlaceholder?_eq hslot).trans hid) hux (.block c primary alternate)
    obtain ⟨hname, hparams, hhash⟩ := hc'.views 0
    refine ⟨(), y, hy, hx.attach_new (o := .morph (.block c primary alternate) []) (hfits id hid)
      hc'.owns rfl ?_ ?_ hat, hfits id hid⟩
    · intro v hv
      rcases List.mem_cons.1 hv with rfl | hv
      · exact hprimary'.1
      · rcases List.mem_cons.1 hv with rfl | hv
        · exact halternate.1
        · exact hc'.frozen v hv
    · simp only [viewObject, hname, hparams, hhash, hprimary'.2, halternate.2]

/-! ### The loop -/

/-- A statement that can be bound to a slot: it is data that show no object that may change, and its
slot is one of them. -/
structure Bindable (live : List ObjectId) (s : Store) (binding : Value × Value) : Prop where
  present : s.Present binding.1
  plain : s.Frozen live binding.2
  fits : ∀ st, statementOf s binding.2 = .ok st → st.Fits live s binding.1

theorem ofArgs_toOption (d d' : Display) (tag : StatementTag) (args : List Value) :
    (Statement.ofArgs d tag args).toOption = (Statement.ofArgs d' tag args).toOption := by
  unfold Statement.ofArgs
  split <;> rfl

theorem unknownTag_toOption {α : Type} (d : Display) (kind : TagKind) (tag : Raw) :
    (unknownTag d kind tag : Except Fault α).toOption = none := by
  cases htag : (unknownTag d kind tag : Except Fault α) with
  | ok a => exact absurd htag (unknownTag_ne_ok kind tag a)
  | error fault => rfl

/-- Which statement an array is can be told from its items. -/
theorem statementOf_toOption {statement : Value} (harray : u.array? statement = s.array? statement) :
    (statementOf u statement).toOption = (statementOf s statement).toOption := by
  have hbind : ∀ (t : Store) (x : Except Fault (StatementTag × List Value)),
      (x >>= fun found => Statement.ofArgs t.display found.1 found.2).toOption =
        x.toOption.bind fun found => (Statement.ofArgs s.display found.1 found.2).toOption := by
    intro t x
    cases x with
    | error fault => rfl
    | ok found => exact ofArgs_toOption _ _ found.1 found.2
  have hsplit : (splitStatement u statement).toOption = (splitStatement s statement).toOption := by
    unfold splitStatement
    rw [harray]
    cases s.array? statement with
    | none => rfl
    | some items =>
      cases items with
      | nil => rfl
      | cons tag args =>
        dsimp only
        cases StatementTag.ofValue? tag with
        | none => rw [unknownTag_toOption, unknownTag_toOption]
        | some t => rfl
  have hu := hbind u (splitStatement u statement)
  rw [hsplit, ← hbind s (splitStatement s statement)] at hu
  exact hu

/-- **The step of the loop**: interpreting a statement attaches what it says, or fails if it says
nothing. -/
theorem interpret_attaches {binding : Value × Value} (hl : Library nested s live templates tree)
    (h : Midway s live done u) (hclosed : s.Closed) (hb : Bindable live s binding) :
    Gives (interpret nested binding.1 binding.2 templates) u (attachment? tree s templates binding)
      fun _ t a => Midway s live (done ++ [a]) t := by
  have hpresent : s.Present binding.2 := by
    intro id hid
    have hplain := hb.plain
    cases hvalue : binding.2 with
    | object i =>
      rw [hvalue] at hid hplain
      cases hid
      obtain ⟨o, ho, -⟩ := hplain.object_inv
      exact ⟨o, ho⟩
    | method owner name =>
      rw [hvalue] at hplain
      cases hplain with
      | scalar hv => cases hv
    | _ => rw [hvalue] at hid; cases hid
  have hoption := statementOf_toOption (h.attached.grown.array?_eq hpresent)
  have hnoted := h.extend (extends_of_objects_eq (noted_objects u binding.2))
  have heq := interpret_apply nested binding.1 binding.2 templates u
  unfold Gives attachment?
  rw [← hoption]
  cases hu : statementOf u binding.2 with
  | error fault =>
    rw [hu] at heq
    exact ⟨fault, _, heq, trivial⟩
  | ok st =>
    rw [hu] at heq hoption
    have hs : statementOf s binding.2 = .ok st := by
      cases hs : statementOf s binding.2 with
      | error fault => rw [hs] at hoption; cases hoption
      | ok st' =>
        rw [hs] at hoption
        cases hoption
        rfl
    obtain ⟨items, hitems, hmem⟩ := statementOf_mem hs
    have hplain : ∀ v ∈ st.arguments, s.Frozen live v := by
      intro v hv
      have hfrozen := hb.plain
      obtain ⟨id, hid, ho | ho⟩ := array?_eq_some hitems
      all_goals
        rw [hid] at hfrozen
        obtain ⟨o, ho', -, -, -, hcontents⟩ := hfrozen.object_inv
        rw [ho] at ho'
        cases ho'
        exact hcontents v (hmem v hv)
    have hgives := Statement.apply_attaches hl hnoted hclosed hb.present hplain (hb.fits st hs)
    refine MeetsBy.of_eq heq (hgives.mono fun _ t a ⟨hattached, htarget⟩ => ?_)
    refine ⟨hattached, fun b hmem => ?_, h.has⟩
    rcases List.mem_append.1 hmem with hmem | hmem
    · exact h.targets b hmem
    · rw [List.mem_singleton.1 hmem]
      exact htarget

/-- **The whole loop** attaches what all statements say, in order, or fails if one of them says
nothing. -/
theorem bindAll_attaches (hl : Library nested s live templates tree) (hclosed : s.Closed) :
    ∀ (bindings : List (Value × Value)) {done : List Attachment} {u : Store},
      Midway s live done u → (∀ b ∈ bindings, Bindable live s b) →
      Gives (bindAll nested templates bindings) u (attachments? tree s templates bindings)
        fun _ t more => Midway s live (done ++ more) t
  | [], done, u, h, _ => ⟨(), u, rfl, by simpa using h⟩
  | binding :: rest, done, u, h, hb => by
    refine (interpret_attaches hl h hclosed (hb binding List.mem_cons_self)).bind fun _ t a ht => ?_
    have hrest := bindAll_attaches hl hclosed rest ht fun b hmem => hb b (List.mem_cons_of_mem _ hmem)
    refine hrest.map_spec fun _ v more hv => ?_
    rwa [List.append_assoc] at hv

/-! ### Places and order -/

/-- Whether a statement adds a modifier to an element. -/
def addsTo (s : Store) (id : ObjectId) (binding : Value × Value) : Bool :=
  match statementOf s binding.2 with
  | .ok (.element _ _ _) => (s.ownerOf? binding.1).any (·.id = id)
  | _ => false

/-- Whether a statement attaches something to an object. -/
def attachesTo (tree : Value → Option View) (s : Store) (templates : Value) (id : ObjectId)
    (binding : Value × Value) : Bool :=
  (attachment? tree s templates binding).any (·.target = id)

theorem asPlaceholder?_place (h : s.asPlaceholder? v = some id) :
    v = .object id ∧ element? s (.object id) = none := by
  obtain ⟨rfl, old, parent, children, added, ho⟩ := isPlaceholder_of_asPlaceholder? h
  refine ⟨rfl, ?_⟩
  rw [element?, asNode?, asObject?_of_object? ho]

theorem asAttribute?_place (h : s.asAttribute? v = some id) :
    v = .object id ∧ element? s (.object id) = none := by
  unfold asAttribute? at h
  split at h
  · rename_i i key value parent added heq
    cases h
    obtain ⟨rfl, ho⟩ := asObject?_eq_some heq
    refine ⟨rfl, ?_⟩
    rw [element?, asNode?, asObject?_of_object? ho]
  · cases h

theorem ownerOf?_place {owner : Element} (h : s.ownerOf? slot = some owner) :
    (element? s (.object owner.id)).isSome := by
  obtain ⟨w, -, helement⟩ := Option.bind_eq_some_iff.1 h
  obtain ⟨n, tag, ns, rfl, hn, hshape⟩ := element?_eq_some_iff.1 helement
  rw [helement]
  rfl

/-- What a statement attaches belongs to the element that it adds to, or to its slot, which is no
element. -/
theorem attachment?_target {binding : Value × Value}
    (h : attachment? tree s templates binding = some a) :
    (addsTo s a.target binding = true ∧ (element? s (.object a.target)).isSome) ∨
      binding.1 = .object a.target ∧ element? s (.object a.target) = none := by
  obtain ⟨st, hst, hattachment⟩ := Option.bind_eq_some_iff.1 h
  cases st with
  | inline name ps hs =>
    obtain ⟨c, -, hc⟩ := Option.bind_eq_some_iff.1 hattachment
    obtain ⟨id, hid, ha⟩ := Option.bind_eq_some_iff.1 hc
    cases ha
    exact .inr (asPlaceholder?_place hid)
  | «attribute» value =>
    obtain ⟨id, hid, he⟩ := Option.bind_eq_some_iff.1 hattachment
    obtain ⟨e, -, ha⟩ := Option.bind_eq_some_iff.1 he
    cases ha
    exact .inr (asAttribute?_place hid)
  | element name ps hs =>
    obtain ⟨owner, howner, hc⟩ := Option.bind_eq_some_iff.1 hattachment
    obtain ⟨c, -, ha⟩ := Option.bind_eq_some_iff.1 hc
    cases ha
    refine .inl ⟨?_, ownerOf?_place howner⟩
    have hstatement : statementOf s binding.2 = .ok (.element name ps hs) := by
      cases hs' : statementOf s binding.2 with
      | error fault => rw [hs'] at hst; cases hst
      | ok st =>
        rw [hs'] at hst
        cases hst
        rfl
    simp [addsTo, hstatement, howner]
  | content v =>
    obtain ⟨id, hid, ha⟩ := Option.bind_eq_some_iff.1 hattachment
    cases ha
    exact .inr (asPlaceholder?_place hid)
  | block name ps hs template inverse =>
    obtain ⟨id, hid, hc⟩ := Option.bind_eq_some_iff.1 hattachment
    obtain ⟨c, -, hp⟩ := Option.bind_eq_some_iff.1 hc
    obtain ⟨primary, -, hi⟩ := Option.bind_eq_some_iff.1 hp
    obtain ⟨alternate, -, ha⟩ := Option.bind_eq_some_iff.1 hi
    cases ha
    exact .inr (asPlaceholder?_place hid)

theorem attachments?_eq_some_iff : ∀ {bindings : List (Value × Value)} {done : List Attachment},
    attachments? tree s templates bindings = some done ↔
      List.Forall₂ (fun b a => attachment? tree s templates b = some a) bindings done
  | [], done => by
    rw [attachments?, List.forall₂_nil_left_iff, Option.some_inj]
    exact eq_comm
  | binding :: rest, done => by
    rw [attachments?, List.forall₂_cons_left_iff]
    constructor
    · intro h
      obtain ⟨a, ha, hrest⟩ := Option.bind_eq_some_iff.1 h
      obtain ⟨more, hmore, hdone⟩ := Option.bind_eq_some_iff.1 hrest
      exact ⟨a, more, ha, attachments?_eq_some_iff.1 hmore, (Option.some_inj.1 hdone).symm⟩
    · rintro ⟨a, more, ha, hmore, rfl⟩
      rw [ha, Option.bind_some, attachments?_eq_some_iff.2 hmore, Option.bind_some]

/-- The loop has something to attach for all statements if it has for each of them, in any order. -/
theorem attachments?_isSome_iff : ∀ {bindings : List (Value × Value)},
    (attachments? tree s templates bindings).isSome ↔
      ∀ b ∈ bindings, (attachment? tree s templates b).isSome
  | [] => by simp [attachments?]
  | binding :: rest => by
    rw [List.forall_mem_cons, ← attachments?_isSome_iff, attachments?]
    cases attachment? tree s templates binding <;>
      cases attachments? tree s templates rest <;> simp

/-- What is attached to an object is what the statements that attach to it say. -/
theorem shownAt_eq
    (h : List.Forall₂ (fun b a => attachment? tree s templates b = some a) bindings done)
    (id : ObjectId) : shownAt id done =
      (bindings.filter (attachesTo tree s templates id)).filterMap fun b =>
        (attachment? tree s templates b).map (·.shown) := by
  induction h with
  | nil => rfl
  | @cons b a bindings done hb _ ih =>
    unfold shownAt at ih ⊢
    by_cases ha : a.target = id
    · rw [List.filter_cons_of_pos (by simpa using ha), List.map_cons, ih,
        List.filter_cons_of_pos (by simp [attachesTo, hb, ha]), List.filterMap_cons, hb]
      rfl
    · rw [List.filter_cons_of_neg (by simpa using ha), ih,
        List.filter_cons_of_neg (by simp [attachesTo, hb, ha])]

theorem attachesTo_iff : attachesTo tree s templates id b = true ↔
    ∃ a, attachment? tree s templates b = some a ∧ a.target = id := by
  unfold attachesTo
  cases attachment? tree s templates b <;> simp

/-- Only one statement attaches to an object that is no element, if the slots are distinct. -/
theorem filter_attachesTo_length_le (tree : Value → Option View) (templates : Value)
    (hnodup : (bindings.map (·.1)).Nodup) (hid : element? s (.object id) = none) :
    (bindings.filter (attachesTo tree s templates id)).length ≤ 1 := by
  have hslot : ∀ slot ∈ (bindings.filter (attachesTo tree s templates id)).map (·.1),
      slot = .object id := by
    intro slot hmem
    obtain ⟨b, hb, rfl⟩ := List.mem_map.1 hmem
    obtain ⟨a, ha, rfl⟩ := attachesTo_iff.1 (List.mem_filter.1 hb).2
    rcases attachment?_target ha with ⟨-, hsome⟩ | ⟨heq, -⟩
    · rw [hid] at hsome
      cases hsome
    · exact heq
  have hsub : ((bindings.filter (attachesTo tree s templates id)).map (·.1)).Nodup :=
    hnodup.sublist (List.filter_sublist.map _)
  rw [List.eq_replicate_of_mem hslot, List.nodup_replicate, List.length_map] at hsub
  exact hsub

/-- The statements that attach to an object stand in the same order if those that add to an element
do. -/
theorem filter_attachesTo_eq {bindings' : List (Value × Value)}
    (hnodup : (bindings.map (·.1)).Nodup) (hperm : bindings.Perm bindings')
    (horder : ∀ id, bindings.filter (addsTo s id) = bindings'.filter (addsTo s id)) (id : ObjectId) :
    bindings.filter (attachesTo tree s templates id) =
      bindings'.filter (attachesTo tree s templates id) := by
  have hfilter := hperm.filter (attachesTo tree s templates id)
  by_cases hid : element? s (.object id) = none
  · -- A place that holds one value: at most one statement attaches to it.
    have hlength := filter_attachesTo_length_le tree templates hnodup hid
    generalize bindings.filter (attachesTo tree s templates id) = left at hfilter hlength ⊢
    match left, hlength with
    | [], _ => exact hfilter.nil_eq
    | [b], _ => exact List.singleton_perm.1 hfilter
  · -- An element: what attaches to it are statements that add to it.
    have hadds : ∀ b, (attachesTo tree s templates id b && addsTo s id b) =
        attachesTo tree s templates id b := by
      intro b
      by_cases hb : attachesTo tree s templates id b = true
      · obtain ⟨a, ha, rfl⟩ := attachesTo_iff.1 hb
        rcases attachment?_target ha with ⟨hadds, -⟩ | ⟨-, hnone⟩
        · rw [hb, hadds]
          rfl
        · exact absurd hnone hid
      · rw [Bool.not_eq_true] at hb
        rw [hb, Bool.false_and]
    have hboth : ∀ l : List (Value × Value), l.filter (attachesTo tree s templates id) =
        (l.filter (addsTo s id)).filter (attachesTo tree s templates id) := by
      intro l
      rw [List.filter_filter]
      exact List.filter_congr fun b _ => (hadds b).symm
    rw [hboth bindings, hboth bindings', horder id]

/-- What is attached to an object does not depend on the order of statements that attach to
others. -/
theorem shownAt_perm {bindings' : List (Value × Value)} {done' : List Attachment}
    (hnodup : (bindings.map (·.1)).Nodup) (hperm : bindings.Perm bindings')
    (horder : ∀ id, bindings.filter (addsTo s id) = bindings'.filter (addsTo s id))
    (hdone : attachments? tree s templates bindings = some done)
    (hdone' : attachments? tree s templates bindings' = some done') (id : ObjectId) :
    shownAt id done = shownAt id done' := by
  rw [shownAt_eq (attachments?_eq_some_iff.1 hdone), shownAt_eq (attachments?_eq_some_iff.1 hdone'),
    filter_attachesTo_eq hnodup hperm horder]

/-- A slot that is no element holds what its own statement says. -/
theorem shownAt_slot (hnodup : (bindings.map (·.1)).Nodup)
    (hdone : attachments? tree s templates bindings = some done) (hb : b ∈ bindings)
    (ha : attachment? tree s templates b = some a)
    (hid : element? s (.object a.target) = none) : shownAt a.target done = [a.shown] := by
  have hmem : b ∈ bindings.filter (attachesTo tree s templates a.target) :=
    List.mem_filter.2 ⟨hb, attachesTo_iff.2 ⟨a, ha, rfl⟩⟩
  have hlength := filter_attachesTo_length_le tree templates hnodup hid
  rw [shownAt_eq (attachments?_eq_some_iff.1 hdone)]
  generalize bindings.filter (attachesTo tree s templates a.target) = left at hmem hlength ⊢
  match left, hlength with
  | [b'], _ =>
    rw [List.mem_singleton.1 hmem] at ha
    simp [ha]

/-- Slots and statements that the loop can be run on: the statements are data that show none of the
objects being bound, and the templates of blocks are recovered alike whenever they are. -/
structure Ready (nested : Value → Act Value) (s : Store) (live : List ObjectId) (templates : Value)
    (tree : Value → Option View) (slots statements : List Value) : Prop where
  distinct : slots.Nodup
  closed : s.Closed
  has : HasLive live s
  library : Library nested s live templates tree
  bindable : ∀ b ∈ slots.zip statements, Bindable live s b

/-- A slot holds a value: it is the object that it was with this one value attached, which is written
out in some way. -/
def HoldsAt (s t : Store) (live : List ObjectId) (slot : Value) (shown : View) : Prop :=
  ∃ id o v, slot = .object id ∧ s.object? id = some o ∧ t.object? id = some (o.attach v) ∧
    t.Denotes live v shown

theorem bindSlots_of_length_eq {slots statements : List Value}
    (hlength : slots.length = statements.length) :
    bindSlots nested slots statements templates = bindAll nested templates (slots.zip statements) := by
  unfold bindSlots
  rw [if_pos hlength]

namespace Ready

variable {slots statements : List Value}

section Places

variable (h : Ready nested s live templates tree slots statements)

include h

theorem attaches (hlength : slots.length = statements.length) :
    Gives (bindSlots nested slots statements templates) s
      (attachments? tree s templates (slots.zip statements)) fun _ t done => Midway s live done t := by
  have hstart : Midway s live [] s := ⟨s.attached_refl live, by simp, h.has⟩
  rw [bindSlots_of_length_eq hlength]
  exact bindAll_attaches h.library h.closed _ hstart h.bindable

theorem perm (hlength : slots.length = statements.length) {slots' statements' : List Value}
    (hlength' : slots'.length = statements'.length)
    (hperm : (slots.zip statements).Perm (slots'.zip statements')) :
    Ready nested s live templates tree slots' statements' where
  distinct := by
    have hmap := hperm.map (·.1)
    rw [List.map_fst_zip hlength.le, List.map_fst_zip hlength'.le] at hmap
    exact hmap.nodup_iff.1 h.distinct
  closed := h.closed
  has := h.has
  library := h.library
  bindable := fun b hb => h.bindable b (hperm.mem_iff.2 hb)

/-- The loop fails exactly if a statement has nothing to attach. -/
theorem fails_iff (hlength : slots.length = statements.length) :
    (∃ fault t, bindSlots nested slots statements templates s = .error fault t) ↔
      ¬ ∀ b ∈ slots.zip statements, (attachment? tree s templates b).isSome := by
  have hgives := h.attaches hlength
  rw [← attachments?_isSome_iff]
  cases hdone : attachments? tree s templates (slots.zip statements) with
  | none =>
    rw [hdone] at hgives
    obtain ⟨fault, t, ht, -⟩ := hgives
    exact ⟨fun _ => by simp, fun _ => ⟨fault, t, ht⟩⟩
  | some done =>
    rw [hdone] at hgives
    obtain ⟨_, t, ht, -⟩ := hgives
    constructor
    · rintro ⟨fault, u, hu⟩
      rw [ht] at hu
      cases hu
    · intro hnone
      exact absurd rfl hnone

theorem succeeds (hlength : slots.length = statements.length)
    (hall : ∀ b ∈ slots.zip statements, (attachment? tree s templates b).isSome) :
    ∃ t, bindSlots nested slots statements templates s = .ok () t := by
  cases hbind : bindSlots nested slots statements templates s with
  | ok _ t => exact ⟨t, rfl⟩
  | error fault t => exact absurd hall ((h.fails_iff hlength).1 ⟨fault, t, hbind⟩)

theorem attached_of_ok (hlength : slots.length = statements.length)
    (ht : bindSlots nested slots statements templates s = .ok () t) :
    ∃ done, attachments? tree s templates (slots.zip statements) = some done ∧
      s.Attached live done t := by
  have hgives := h.attaches hlength
  cases hdone : attachments? tree s templates (slots.zip statements) with
  | none =>
    rw [hdone] at hgives
    obtain ⟨fault, u, hfault, -⟩ := hgives
    rw [ht] at hfault
    cases hfault
  | some done =>
    rw [hdone] at hgives
    obtain ⟨_, u, hu, hmidway⟩ := hgives
    rw [ht] at hu
    cases hu
    exact ⟨done, rfl, hmidway.attached⟩

/-- The statement of a slot that is no element ends up in it. -/
theorem holdsAt (hlength : slots.length = statements.length)
    (hdone : attachments? tree s templates (slots.zip statements) = some done)
    (ht : s.Attached live done t) (hb : b ∈ slots.zip statements)
    (ha : attachment? tree s templates b = some a)
    (hslot : element? s (.object a.target) = none) : HoldsAt s t live b.1 a.shown := by
  have hnodup : ((slots.zip statements).map (·.1)).Nodup := by
    rw [List.map_fst_zip hlength.le]
    exact h.distinct
  rcases attachment?_target ha with ⟨-, hsome⟩ | ⟨heq, -⟩
  · rw [hslot] at hsome
    cases hsome
  · obtain ⟨o, ho⟩ := (h.bindable b hb).present a.target (by rw [heq]; rfl)
    obtain ⟨vs, hvs, hshown⟩ := ht a.target o ho
    rw [shownAt_slot hnodup hdone hb ha hslot] at hshown
    obtain ⟨v, rest, hv, hrest, rfl⟩ := List.forall₂_cons_right_iff.1 hshown
    rw [List.forall₂_nil_right_iff.1 hrest] at hvs
    exact ⟨a.target, o, v, heq, ho, hvs, hv⟩

end Places

end Ready

/-- **Binding by position.** Different numbers of slots and statements are refused at once. Otherwise
the loop succeeds exactly if each statement has something to attach at its slot; then each slot holds
what the statement at its position says, each element has the modifiers that its statements say after
those that it had, in their order, and every other object is as before. Any order of the slots and
their statements that keeps the order in which modifiers are added to each element fails just when this
one does, and gives the same trees. -/
theorem positional_binding (nested : Value → Act Value) (templates : Value) (s : Store)
    (slots statements : List Value) :
    (slots.length ≠ statements.length → bindSlots nested slots statements templates s =
      .error (.mismatch statements.length slots.length) s) ∧
    ∀ (live : List ObjectId) (tree : Value → Option View),
      Ready nested s live templates tree slots statements →
      (∀ t, bindSlots nested slots statements templates s = .ok () t →
        slots.length = statements.length ∧
        ∃ done, List.Forall₂ (fun b a => attachment? tree s templates b = some a)
            (slots.zip statements) done ∧
          s.Attached live done t ∧
          ∀ b a, (b, a) ∈ (slots.zip statements).zip done →
            HoldsAt s t live b.1 a.shown ∨ addsTo s a.target b = true) ∧
      (slots.length = statements.length → ∀ slots' statements', slots'.length = statements'.length →
        (slots.zip statements).Perm (slots'.zip statements') →
        (∀ id, (slots.zip statements).filter (addsTo s id) =
          (slots'.zip statements').filter (addsTo s id)) →
        ((∃ fault t, bindSlots nested slots statements templates s = .error fault t) ↔
          ∃ fault t, bindSlots nested slots' statements' templates s = .error fault t) ∧
        ∀ t t', bindSlots nested slots statements templates s = .ok () t →
          bindSlots nested slots' statements' templates s = .ok () t' →
          ∀ v, s.Present v → t.view v = t'.view v) := by
  have hmismatch : slots.length ≠ statements.length → bindSlots nested slots statements templates s =
      .error (.mismatch statements.length slots.length) s := by
    intro hlength
    unfold bindSlots
    rw [if_neg hlength]
    rfl
  refine ⟨hmismatch, fun live tree hready => ⟨fun t ht => ?_, ?_⟩⟩
  · have hlength : slots.length = statements.length := by
      by_contra hne
      rw [hmismatch hne] at ht
      cases ht
    obtain ⟨done, hdone, hattached⟩ := hready.attached_of_ok hlength ht
    have hforall := attachments?_eq_some_iff.1 hdone
    refine ⟨hlength, done, hforall, hattached, fun b a hmem => ?_⟩
    have ha := (List.forall₂_iff_zip.1 hforall).2 hmem
    rcases attachment?_target ha with ⟨hadds, -⟩ | ⟨-, hslot⟩
    · exact .inr hadds
    · exact .inl (hready.holdsAt hlength hdone hattached (List.of_mem_zip hmem).1 ha hslot)
  · intro hlength slots' statements' hlength' hperm horder
    have hready' := hready.perm hlength hlength' hperm
    refine ⟨?_, fun t t' ht ht' v hv => ?_⟩
    · rw [hready.fails_iff hlength, hready'.fails_iff hlength', not_iff_not]
      exact forall_congr' fun b => imp_congr_left hperm.mem_iff
    · obtain ⟨done, hdone, hattached⟩ := hready.attached_of_ok hlength ht
      obtain ⟨done', hdone', hattached'⟩ := hready'.attached_of_ok hlength' ht'
      have hnodup : ((slots.zip statements).map (·.1)).Nodup := by
        rw [List.map_fst_zip hlength.le]
        exact hready.distinct
      have hsame := shownAt_perm hnodup hperm horder hdone hdone'
      exact (hattached.sameAttached hattached' hsame).view_eq hready.closed hv

/-- The members of a template without slots, whose static part is empty. -/
def emptyMembers : Fields :=
  [("meta", .object ⟨13⟩), ("buildFragment", .object ⟨14⟩), ("buildRenderNodes", .object ⟨15⟩),
    ("statements", .object ⟨6⟩), ("templates", .object ⟨6⟩)]

/-- A template without slots, as a store holds it. -/
structure HasEmptyTemplate (s : Store) : Prop where
  array : s.object? ⟨6⟩ = some (.list [])
  template : s.object? ⟨12⟩ = some (.record emptyMembers)
  revision : s.object? ⟨13⟩ = some (.record [("revision", .str "Ember@2.0.0")])
  fragment : s.object? ⟨14⟩ = some (.function (.routine (.mk .fragment [] (.fragment []))) [])
  slots : s.object? ⟨15⟩ = some (.function (.routine (.mk .slots [] (.list []))) [])

theorem HasEmptyTemplate.keep (h : HasEmptyTemplate s) (hst : s.Extends t) : HasEmptyTemplate t :=
  ⟨hst _ _ h.array, hst _ _ h.template, hst _ _ h.revision, hst _ _ h.fragment, hst _ _ h.slots⟩

theorem HasEmptyTemplate.member (h : HasEmptyTemplate s) {name : String}
    (hname : name ∉ Field.containerNames) (hv : emptyMembers.lookup name = some v) :
    Artifact.member name (.object ⟨12⟩) s = .ok v s := by
  rw [member_apply hname, memberOf_record h.template hv]

theorem HasEmptyTemplate.validate (h : HasEmptyTemplate u) : validate (.object ⟨12⟩) u = .ok () u := by
  have hmeta : memberOf u "meta" (.object ⟨12⟩) = .object ⟨13⟩ := memberOf_record h.template rfl
  have hrevision : memberOf u "revision" (.object ⟨13⟩) = .str "Ember@2.0.0" :=
    memberOf_record h.revision rfl
  have hfragment : memberOf u "buildFragment" (.object ⟨12⟩) = .object ⟨14⟩ :=
    memberOf_record h.template rfl
  have hslots : memberOf u "buildRenderNodes" (.object ⟨12⟩) = .object ⟨15⟩ :=
    memberOf_record h.template rfl
  have hstatements : memberOf u "statements" (.object ⟨12⟩) = .object ⟨6⟩ :=
    memberOf_record h.template rfl
  have htemplates : memberOf u "templates" (.object ⟨12⟩) = .object ⟨6⟩ :=
    memberOf_record h.template rfl
  have hvalid : firstViolated u (.object ⟨12⟩) = .none := by
    simp only [firstViolated, requirements, hmeta, hrevision, hfragment, hslots, hstatements,
      htemplates, truthy, isCallable, array?, asObject?, h.template,
      h.revision, h.fragment, h.slots, h.array, Option.map_some]
    decide +kernel
  rcases validate_verdict (.object ⟨12⟩) u with ⟨-, hok⟩ | ⟨p, hp, -⟩
  · exact hok
  · rw [hvalid] at hp
    cases hp

theorem callWith_routine (m : Machine) {r : Routine} {added : Fields}
    (ho : s.object? id = some (.function (.routine r) added)) (args : List Value) :
    callWith m (.object id) args s = r.run m args s := by
  unfold callWith
  rw [bind_store]
  simp only [ho]
  rfl

/-- A template without slots gives an empty fragment. -/
theorem HasEmptyTemplate.recovers (h : HasEmptyTemplate s) : ∃ t, s.Extends t ∧
    recoverWithin (ofDepth 2) 1 (.object ⟨12⟩) s = .ok (.object t.next)
      ((t.push (.node ⟨.fragment, .own []⟩ [])).push (.list [])) := by
  obtain ⟨t, ht⟩ : ∃ t, t = s.push (.document .null) := ⟨_, rfl⟩
  obtain ⟨u, hu⟩ : ∃ u, u = t.push (.node ⟨.fragment, .own []⟩ []) := ⟨_, rfl⟩
  have hst : s.Extends t := ht ▸ s.extends_push _
  have htu : t.Extends u := hu ▸ t.extends_push _
  have huv := u.extends_push (.list [])
  have hfragment : callBuilder (ofDepth 2) (.object ⟨12⟩) "buildFragment" [.object s.next] t =
      .ok (.object t.next) u := by
    refine (bind_of_ok ((h.keep hst).member (by decide) rfl)).trans ?_
    refine (callWith_routine (ofDepth 1) (h.keep hst).fragment _).trans ?_
    rw [hu]
    rfl
  have hslots : callBuilder (ofDepth 2) (.object ⟨12⟩) "buildRenderNodes"
      [.object s.next, .object t.next, .null] u = .ok (.object u.next) (u.push (.list [])) := by
    refine (bind_of_ok ((h.keep (hst.trans htu)).member (by decide) rfl)).trans ?_
    exact callWith_routine (ofDepth 1) (h.keep (hst.trans htu)).slots _
  have hnode : expectFragment (.object t.next) u = .ok () u := by
    refine (bind_of_ok (rfl : store u = .ok u u)).trans ?_
    rw [hu, asNode?, asObject?_of_object? (t.object?_push_next _)]
    rfl
  have harray : expectSlots (.object u.next) (u.push (.list [])) = .ok [] (u.push (.list [])) := by
    refine (bind_of_ok (rfl : store (u.push (.list [])) = .ok _ _)).trans ?_
    rw [array?, asObject?_of_object? (u.object?_push_next _)]
    rfl
  have hempty := h.keep ((hst.trans htu).trans huv)
  have hnone : (u.push (.list [])).array? (.object ⟨6⟩) = some [] := by
    rw [array?, asObject?_of_object? hempty.array]
  have hprepare : prepare (ofDepth 2) (.object ⟨12⟩) s =
      .ok ⟨.object t.next, [], [], .object ⟨6⟩⟩ (u.push (.list [])) := by
    refine (bind_of_ok h.validate).trans ?_
    refine (bind_of_ok (ht ▸ rfl : new (.document .null) s = .ok (.object s.next) t)).trans ?_
    refine (bind_of_ok hfragment).trans ((bind_of_ok hnode).trans ?_)
    refine (bind_of_ok hslots).trans ((bind_of_ok harray).trans ?_)
    refine (bind_of_ok (hempty.member (by decide) rfl)).trans ?_
    refine (bind_of_ok (hempty.member (by decide) rfl)).trans ?_
    exact bind_of_ok (statementsOf_of_array? hnone)
  refine ⟨t, hst, ?_⟩
  rw [recoverWithin_succ, bind_of_ok hprepare, ← hu]
  rfl

/-- A placeholder, a bound attribute and two handles of one element, with a statement for each. -/
def bindingStore : Store where
  objects := #[
    .node ⟨.fragment, .own [.object ⟨1⟩, .object ⟨2⟩]⟩ [],
    .node ⟨.element (.str "p") .null (.own []) (.own [.object ⟨3⟩]) (.own []), .own []⟩ [],
    .node ⟨.placeholder .null (.object ⟨0⟩), .own []⟩ [],
    .morph (.attribute (.str "class") .null (.object ⟨1⟩)) [],
    .slot (.object ⟨1⟩) [],
    .slot (.object ⟨1⟩) [],
    .list [],
    .list [.str "block", .str "if", .object ⟨6⟩, .object ⟨6⟩, .int 0, .null],
    .list [.str "attribute", .str "class", .str "wide"],
    .list [.str "element", .str "action", .object ⟨6⟩, .object ⟨6⟩],
    .list [.str "element", .str "bind", .object ⟨6⟩, .object ⟨6⟩],
    .list [.object ⟨12⟩],
    .record emptyMembers,
    .record [("revision", .str "Ember@2.0.0")],
    .function (.routine (.mk .fragment [] (.fragment []))) [],
    .function (.routine (.mk .slots [] (.list []))) []]

/-- The recovery of what blocks hold, down to one level. -/
def recoverBranch : Value → Act Value := recoverWithin (ofDepth 2) 1

/-- The objects of `bindingStore` that statements attach to. -/
def bindingTargets : List ObjectId := [⟨1⟩, ⟨2⟩, ⟨3⟩]

theorem bindingStore_closed : bindingStore.Closed := by
  have hall : ∀ o ∈ bindingStore.objects.toList, ∀ v ∈ o.values, ∀ id ∈ v.root?,
      id.index < bindingStore.objects.size := by decide +kernel
  intro id o ho v hv i hi
  have hlt := hall o (Array.mem_toList_iff.2 (Array.mem_of_getElem? ho)) v hv i hi
  exact ⟨_, Array.getElem?_eq_getElem hlt⟩

theorem bindingStore_library : Library recoverBranch bindingStore bindingTargets (.object ⟨11⟩)
    fun _ => some (.fragment (.list [])) := by
  refine ⟨_, rfl, fun template hmem u hframe hlive => ?_⟩
  rw [List.mem_singleton.1 hmem]
  have hempty : HasEmptyTemplate u :=
    ⟨hframe _ _ (by decide) rfl, hframe _ _ (by decide) rfl, hframe _ _ (by decide) rfl,
      hframe _ _ (by decide) rfl, hframe _ _ (by decide) rfl⟩
  obtain ⟨t, hut, ht⟩ := hempty.recovers
  have hdenotes : (t.push (.node ⟨.fragment, .own []⟩ [])).Denotes bindingTargets (.object t.next)
      (.fragment (.list [])) :=
    new_denotes (hlive.mono hut) ⟨trivial, trivial⟩ rfl
      (by simp [contents, Shape.contents, Held.listed]) rfl
  have hkeep := (t.push (.node ⟨.fragment, .own []⟩ [])).extends_push (.list [])
  exact ⟨_, _, ht, (hut.trans (t.extends_push _)).trans hkeep, hdenotes.keep hkeep⟩

/-- A list of plain values and of lists that nothing attaches to is frozen. -/
theorem frozen_list {items : List Value} (ho : s.object? id = some (.list items)) (hid : id ∉ live)
    (hitems : ∀ v ∈ items, s.Frozen live v) : s.Frozen live (.object id) :=
  .object ho hid trivial (by simp [Object.backs]) hitems

theorem bindingStore_plain : ∀ i ∈ [7, 8, 9, 10],
    bindingStore.Frozen bindingTargets (.object ⟨i⟩) := by
  have hempty : bindingStore.Frozen bindingTargets (.object ⟨6⟩) :=
    frozen_list rfl (by decide) (by simp)
  simp only [List.mem_cons, List.not_mem_nil, or_false]
  rintro i (rfl | rfl | rfl | rfl) <;> refine frozen_list rfl (by decide) ?_ <;>
    simp only [List.mem_cons, List.not_mem_nil, or_false, forall_eq_or_imp, forall_eq, hempty,
      true_and, and_true]
  · exact ⟨.scalar rfl, .scalar rfl, .scalar rfl, .scalar rfl⟩
  · exact ⟨.scalar rfl, .scalar rfl, .scalar rfl⟩
  · exact ⟨.scalar rfl, .scalar rfl⟩
  · exact ⟨.scalar rfl, .scalar rfl⟩

theorem bindingStore_ready : Ready recoverBranch bindingStore bindingTargets (.object ⟨11⟩)
    (fun _ => some (.fragment (.list []))) [.object ⟨2⟩, .object ⟨3⟩, .object ⟨4⟩, .object ⟨5⟩]
    [.object ⟨7⟩, .object ⟨8⟩, .object ⟨9⟩, .object ⟨10⟩] where
  distinct := by decide
  closed := bindingStore_closed
  has := by
    intro id hid
    simp only [bindingTargets, List.mem_cons, List.not_mem_nil, or_false] at hid
    rcases hid with rfl | rfl | rfl <;> exact ⟨_, rfl⟩
  library := bindingStore_library
  bindable := by
    simp only [List.zip_cons_cons, List.zip_nil_right, List.mem_cons, List.not_mem_nil, or_false]
    rintro b (rfl | rfl | rfl | rfl) <;>
      refine ⟨by rintro _ ⟨⟩; exact ⟨_, rfl⟩, bindingStore_plain _ (by decide), ?_⟩
    · rintro _ ⟨⟩ id hid
      cases hid
      decide
    · rintro _ ⟨⟩ id hid
      cases hid
      decide
    · rintro _ ⟨⟩ owner howner
      cases howner
      exact ⟨by decide, [], rfl⟩
    · rintro _ ⟨⟩ owner howner
      cases howner
      exact ⟨by decide, [], rfl⟩

theorem bindingStore_order (id : ObjectId) :
    (List.zip [Value.object ⟨2⟩, .object ⟨3⟩, .object ⟨4⟩, .object ⟨5⟩]
      [Value.object ⟨7⟩, .object ⟨8⟩, .object ⟨9⟩, .object ⟨10⟩]).filter (addsTo bindingStore id) =
    (List.zip [Value.object ⟨4⟩, .object ⟨3⟩, .object ⟨5⟩, .object ⟨2⟩]
      [Value.object ⟨9⟩, .object ⟨8⟩, .object ⟨10⟩, .object ⟨7⟩]).filter (addsTo bindingStore id) := by
  have hblock : addsTo bindingStore id (.object ⟨2⟩, .object ⟨7⟩) = false := rfl
  have hattribute : addsTo bindingStore id (.object ⟨3⟩, .object ⟨8⟩) = false := rfl
  simp [List.filter_cons, hblock, hattribute]

/-- Two orders of binding, of which the second adds the modifiers first. -/
theorem positional_binding_bindingStore : ∃ t t',
    bindSlots recoverBranch [.object ⟨2⟩, .object ⟨3⟩, .object ⟨4⟩, .object ⟨5⟩]
      [.object ⟨7⟩, .object ⟨8⟩, .object ⟨9⟩, .object ⟨10⟩] (.object ⟨11⟩) bindingStore = .ok () t ∧
    bindSlots recoverBranch [.object ⟨4⟩, .object ⟨3⟩, .object ⟨5⟩, .object ⟨2⟩]
      [.object ⟨9⟩, .object ⟨8⟩, .object ⟨10⟩, .object ⟨7⟩] (.object ⟨11⟩) bindingStore = .ok () t' ∧
    t.view (.object ⟨0⟩) = t'.view (.object ⟨0⟩) := by
  obtain ⟨-, hready⟩ := positional_binding recoverBranch (.object ⟨11⟩) bindingStore
    [.object ⟨2⟩, .object ⟨3⟩, .object ⟨4⟩, .object ⟨5⟩]
    [.object ⟨7⟩, .object ⟨8⟩, .object ⟨9⟩, .object ⟨10⟩]
  obtain ⟨-, hperm⟩ := hready _ _ bindingStore_ready
  obtain ⟨hfails, hsame⟩ := hperm rfl [.object ⟨4⟩, .object ⟨3⟩, .object ⟨5⟩, .object ⟨2⟩]
    [.object ⟨9⟩, .object ⟨8⟩, .object ⟨10⟩, .object ⟨7⟩] rfl (by decide) bindingStore_order
  obtain ⟨t, ht⟩ : ∃ t, bindSlots recoverBranch [.object ⟨2⟩, .object ⟨3⟩, .object ⟨4⟩, .object ⟨5⟩]
      [.object ⟨7⟩, .object ⟨8⟩, .object ⟨9⟩, .object ⟨10⟩] (.object ⟨11⟩) bindingStore = .ok () t := by
    refine bindingStore_ready.succeeds rfl ?_
    simp only [List.zip_cons_cons, List.zip_nil_right, List.mem_cons, List.not_mem_nil, or_false]
    rintro b (rfl | rfl | rfl | rfl) <;> rfl
  cases ht' : bindSlots recoverBranch [.object ⟨4⟩, .object ⟨3⟩, .object ⟨5⟩, .object ⟨2⟩]
      [.object ⟨9⟩, .object ⟨8⟩, .object ⟨10⟩, .object ⟨7⟩] (.object ⟨11⟩) bindingStore with
  | error fault u =>
    obtain ⟨fault', u', hu'⟩ := hfails.2 ⟨fault, u, ht'⟩
    rw [ht] at hu'
    cases hu'
  | ok _ t' =>
    refine ⟨t, t', ht, rfl, hsame t t' ht ht' _ ?_⟩
    rintro _ ⟨⟩
    exact ⟨_, rfl⟩

/-- An element whose modifiers are also the children of another, and a statement that adds to it. -/
def aliasStore : Store where
  objects := #[
    .node ⟨.element (.str "a") .null (.own []) (.own []) (.shared (.object ⟨2⟩)), .own []⟩ [],
    .node ⟨.element (.str "b") .null (.own []) (.own []) (.own []), .shared (.object ⟨2⟩)⟩ [],
    .list [],
    .slot (.object ⟨0⟩) [],
    .list [.str "element", .str "x", .object ⟨5⟩, .object ⟨5⟩],
    .list []]

/-- An element statement changes the children of another element, if the two share a list. -/
theorem modifier_in_children : ∃ t,
    bindSlots recoverBranch [.object ⟨3⟩] [.object ⟨4⟩] (.object ⟨5⟩) aliasStore = .ok () t ∧
      aliasStore.view (.object ⟨1⟩) =
        .element (.str "b") .null (.map []) (.list []) (.list []) (.list []) ∧
      t.view (.object ⟨1⟩) = .element (.str "b") .null (.map []) (.list []) (.list [])
        (.list [.modifier (.str "x") (.list []) (.map [])]) :=
  ⟨_, rfl, rfl, rfl⟩

end Opcode

end TemplateRecovery
