import TemplateRecovery.Proofs.Frozen
import TemplateRecovery.Proofs.Refusal
import TemplateRecovery.Proofs.Run

/-!
# Printing a forest ends

Printing follows the parts of the tree, and the only thing that keeps it from ending is a part inside
itself. In an orderly store there is none, unless a node or a morph is the name of an attribute.

* `Store.Whole` are the values that are there with all their parts; `Store.Orderly.whole_of_isNode`
  says that writing out leads down to such parts.
* `Store.Whole.treeWithin_settles` says that no text of what is written out goes on for ever.
-/

namespace TemplateRecovery

open Store Fault View Document

variable {v : Value} {m : Morph} {s : Store} {id a b : ObjectId} {n : Node} {added : Fields}
  {base : Nat} {o : Object}

/-! ### Texts that end -/

/-- A fault other than that a text goes on for ever. -/
abbrev Fault.Ends (fault : Fault) : Prop := fault ≠ .endless

instance : Refuses Ends where
  wrongType := by simp
  overflow := by simp
  longNumber := by simp [longNumber]
  noAttribute _ _ := by simp
  shape _ := by simp

/-- A view that has its plain text by itself: no node and no morph. -/
def View.IsPlain (v : View) : Prop :=
  (∀ n, v ≠ .back .part n) ∧ (∀ kind, v.label? ≠ some (.node kind)) ∧
    ∀ kind, v.label? ≠ some (.morph kind)

theorem View.IsPlain.plain_ends {v : View} (h : v.IsPlain) : FailsOnly Ends v.plain := by
  unfold plain plainOf
  split
  iterate 3 exact failsOnly_ok _
  · exact absurd rfl (h.1 _)
  · split
    · exact absurd ‹_› (h.2.1 _)
    · exact absurd ‹_› (h.2.2 _)
    · exact written_failsOnly v

theorem childrenTexts_ends {items : List Value} {tree : Value → View}
    (h : ∀ v ∈ items, (tree v).Settles Ends) (step indent : Width) :
    FailsOnly Ends (childrenTexts step indent (.list (items.map tree))) := by
  rw [childrenTexts]
  exact childItems_failsOnly (List.forall_mem_map.2 fun v hv => (h v hv).render step indent)

/-! ### The parts of an object -/

/-- The values of the named arguments of a container that belongs to an object. -/
def Held.values : Held Entries → List Value
  | .own entries => entries.map (·.2)
  | .shared _ => []

/-- The arguments of a helper. -/
def HelperCall.parts (c : HelperCall) : List Value := c.params.items ++ c.hash.values

/-- The parts of an expression that are written out with it. -/
def Expression.parts : Expression → List Value
  | .concat parts => parts.items
  | .subexpr c => c.parts
  | _ => []

/-- The parts of a morph that are written out with it. -/
def Morph.parts : Morph → List Value
  | .inline c => c.parts
  | .element c => c.parts
  | .attribute _ value _ => [value]
  | .content _ => []
  | .block c primary alternate => c.parts ++ [primary, alternate]

/-- The parts of a node besides its children that are written out with it. -/
def Shape.parts : Shape → List Value
  | .element _ _ _ bound modifiers => bound.items ++ modifiers.items
  | .placeholder morph _ => [morph]
  | _ => []

/-- The parts of an object that are written out with it. -/
def Object.parts : Object → List Value
  | .expression e => e.parts
  | .morph m _ => m.parts
  | .node n _ => n.shape.parts ++ n.items
  | _ => []

theorem HelperCall.Sound.of_mem_parts {P : Value → Prop} {c : HelperCall} (h : c.Sound P)
    (hv : v ∈ c.parts) : P v := by
  obtain ⟨-, ⟨items, hitems, hparams⟩, entries, hentries, hhash⟩ := h
  rw [parts, hitems, hentries] at hv
  rcases List.mem_append.1 hv with hv | hv
  · exact hparams v hv
  · obtain ⟨e, he, rfl⟩ := List.mem_map.1 hv
    exact (hhash e he).2

namespace Store

/-- No attribute is named by a node or a morph. -/
structure NamesData (s : Store) : Prop where
  static : ∀ id tag ns entries bound modifiers children,
    s.node? id = some ⟨.element tag ns (.own entries) bound modifiers, children⟩ →
      ∀ e ∈ entries, s.Data e.1
  bound : ∀ id key value owner, s.morph? id = some (.attribute key value owner) → s.Data key

/-! ### Parts that end -/

/-- A value that is there with all its parts, down to the last ones. -/
inductive Whole (s : Store) : Value → Prop
  | scalar {v : Value} (hv : ∀ id, v ≠ .object id) : Whole s v
  | object {id : ObjectId} {o : Object} (ho : s.object? id = some o)
      (hparts : ∀ w ∈ o.parts, Whole s w) : Whole s (.object id)

def HasPart (s : Store) (a b : ObjectId) : Prop := ∃ o, s.object? a = some o ∧ .object b ∈ o.parts

theorem Whole.acc (h : s.Whole v) : ∀ id, v = .object id → Acc (fun b a => s.HasPart a b) id := by
  induction h with
  | scalar hv => exact fun id hid => absurd hid (hv id)
  | object ho _ ih =>
    rintro _ ⟨⟩
    refine ⟨_, fun b ⟨p, hp, hb⟩ => ?_⟩
    cases ho.symm.trans hp
    exact ih _ hb b rfl

/-- Data are whole, since what is written out with an expression is older. -/
theorem Sound.whole_of_data (hs : s.Sound) (h : s.Data v) : s.Whole v := by
  cases v with
  | object id =>
    induction hk : id.index using Nat.strong_induction_on generalizing id with
    | _ k ih =>
      obtain ⟨o, ho⟩ := h.2 id rfl
      have hkind := (isPrinted_object ho).symm.trans h.1
      refine .object ho fun w hw => ?_
      have holder : s.Older id w := by
        cases o with
        | expression e =>
          have hsound := hs.expression id e (by rw [expression?, ho]; rfl)
          cases e with
          | concat parts =>
            obtain ⟨items, rfl, hitems⟩ := hsound
            exact hitems _ hw
          | subexpr c => exact HelperCall.Sound.of_mem_parts hsound hw
          | _ => cases hw
        | node n added | morph m added => cases hkind
        | _ => cases hw
      cases w with
      | object b => exact ih _ (hk ▸ holder.2 b rfl) b holder.1 rfl
      | _ => exact .scalar (by simp)
  | _ => exact .scalar (by simp)

/-- What is written out with a morph is data, or a branch. -/
theorem Sound.whole_of_morph (hs : s.Sound) (hm : s.object? id = some (.morph m added))
    (hbranches : ∀ v ∈ m.branches, s.Whole v) : s.Whole (.object id) := by
  have hsound := hs.morph id m (by rw [morph?, hm]; rfl)
  refine .object hm fun w hw => ?_
  cases m with
  | inline c | element c => exact hs.whole_of_data (HelperCall.Sound.of_mem_parts hsound hw)
  | «attribute» key value owner =>
    obtain rfl := List.mem_singleton.1 hw
    exact hs.whole_of_data hsound.1
  | content v => cases hw
  | block c primary alternate =>
    rcases List.mem_append.1 hw with hw | hw
    · exact hs.whole_of_data (hsound.1.of_mem_parts hw)
    · exact hbranches w hw

/-- **Writing out leads down** in an orderly store: with a node there are morphs without branches, nodes
below, or the morph of a placeholder, whose branches are below. -/
theorem Orderly.whole_of_isNode (hs : s.Orderly base) (h : s.IsNode v) : s.Whole v := by
  obtain ⟨rank, hrank⟩ := hs.ranked
  obtain ⟨id, n, rfl, hn⟩ := h.node?
  induction hk : rank id using Nat.strong_induction_on generalizing id n with
  | _ k ih =>
    have hbelow : ∀ w, s.IsNode w → (∀ b, w = .object b → s.Edge id b) → s.Whole w := by
      intro w hw hedge
      obtain ⟨b, m, rfl, hm⟩ := hw.node?
      exact ih _ (hk ▸ hrank id b (hedge b rfl)) b m hm hw rfl
    have hmorph : ∀ {kind : MorphKind} {w : Value}, s.Has (.morph kind) w →
        (∀ i m, w = .object i → s.morph? i = some m → m.kind = kind →
          ∀ b ∈ m.branches, s.Whole b) → s.Whole w := by
      rintro kind _ ⟨i, o, rfl, ho, hkind⟩ hbranches
      cases o with
      | morph m added =>
        cases hkind
        exact hs.sound.whole_of_morph ho (hbranches i m rfl (by rw [morph?, ho]; rfl) rfl)
      | _ => cases hkind
    have hleaf : ∀ {kind : MorphKind} {w : Value}, s.Has (.morph kind) w → kind ≠ .block →
        s.Whole w := by
      refine fun h hne => hmorph h fun i m _ _ hkind b hb => ?_
      cases m with
      | block => exact absurd hkind.symm hne
      | _ => cases hb
    obtain ⟨o, ho, hnode⟩ := Option.bind_eq_some_iff.1 hn
    cases o with
    | node n' added =>
      cases hnode
      refine .object ho fun w hw => ?_
      rcases List.mem_append.1 hw with hw | hw
      · obtain ⟨shape, children⟩ := n
        have hshape := (hs.sound.node id _ hn).shape
        cases shape with
        | element tag ns attributes bound modifiers =>
          obtain ⟨-, ⟨bs, rfl, hbound⟩, ms, rfl, hmodifiers⟩ := hshape
          rcases List.mem_append.1 hw with hw | hw
          · exact hleaf (hbound _ hw) (by simp)
          · exact hleaf (hmodifiers _ hw) (by simp)
        | placeholder morph parent =>
          obtain rfl := List.mem_singleton.1 hw
          rcases hshape with rfl | ⟨kind, h⟩
          · exact .scalar (by simp)
          refine hmorph h fun i m hi hm _ b hb => ?_
          subst hi
          -- the branches of a block are below the placeholder that holds it
          have hedge : ∀ x, b = .object x → s.Edge id x := by
            rintro x rfl
            refine .inr ?_
            rw [branches, hn]
            change _ ∈ ((s.morph? i).map Morph.branches).getD []
            rwa [hm]
          cases m with
          | block c primary alternate =>
            obtain ⟨-, hprimary, halternate⟩ := hs.sound.morph i _ hm
            rcases List.mem_cons.1 hb with rfl | hb
            · exact hbelow _ hprimary hedge
            · obtain rfl := List.mem_singleton.1 hb
              rcases halternate with rfl | halternate
              · exact .scalar (by simp)
              · exact hbelow _ halternate hedge
          | _ => cases hb
        | _ => cases hw
      · have hchild : w ∈ s.children id := by
          rw [children, hn]
          exact hw
        exact hbelow w (hs.sound.isNode_of_mem_children hchild) fun b hb => .inl (hb ▸ hchild)
    | _ => cases hnode

/-! ### Writing out -/

theorem viewScalar_label? (s : Store) (v : Value) : (s.viewScalar v).label? = none := by
  cases v <;> rfl

theorem viewScalar_ne_back (s : Store) (h : ∀ id, v ≠ .object id) (n : Nat) :
    s.viewScalar v ≠ .back .part n := by
  cases v with
  | object id => exact absurd rfl (h id)
  | _ => simp [viewScalar]

theorem view_of_not_object (s : Store) (h : ∀ id, v ≠ .object id) : s.view v = s.viewScalar v := by
  cases v with
  | object id => exact absurd rfl (h id)
  | _ => rfl

theorem view_object (h : s.object? id = some o) :
    ∃ view : Nat → Value → View, s.view (.object id) = s.viewObject view 1 o := by
  refine ⟨s.viewWithin s.objects.size [(id, 0)], ?_⟩
  rw [view, viewFuel, viewWithin]
  simp only [List.lookup_nil, h, Nat.zero_add]

theorem Data.isPlain_view (h : s.Data v) : (s.view v).IsPlain := by
  cases v with
  | object id =>
    obtain ⟨o, ho⟩ := h.2 id rfl
    have hkind := (isPrinted_object ho).symm.trans h.1
    obtain ⟨view, hview⟩ := view_object ho
    rw [hview]
    cases o with
    | node n added => cases hkind
    | morph m added => cases hkind
    | expression e => cases e <;> simp [viewObject, IsPlain, label?]
    | _ => simp [viewObject, IsPlain, label?]
  | _ =>
    rw [view_of_not_object s (by simp)]
    refine ⟨viewScalar_ne_back s (by simp), ?_, ?_⟩ <;> simp [viewScalar_label?]

theorem Data.settles_view (h : s.Data v) (hexpr : s.isExpression v = false) :
    (s.view v).Settles Ends := by
  refine settles_of_label?_eq_none (fun n hn => absurd hn (h.isPlain_view.1 n)) ?_
  cases v with
  | object id =>
    obtain ⟨o, ho⟩ := h.2 id rfl
    have hkind := (isPrinted_object ho).symm.trans h.1
    rw [isExpression, asObject?_of_object? ho] at hexpr
    obtain ⟨view, hview⟩ := view_object ho
    rw [hview]
    cases o with
    | node n added => cases hkind
    | morph m added => cases hkind
    | expression e => cases hexpr
    | _ => rfl
  | _ =>
    rw [view_of_not_object s (by simp)]
    exact viewScalar_label? s _

section TreeObject

variable {s : Store} {tree shown : Value → View}

theorem helper_ends {P : Value → Prop} {c : HelperCall} (hc : c.Sound P)
    (hshown : ∀ v, s.Data v → FailsOnly Ends (shown v).plain)
    (htree : ∀ v ∈ c.parts, (tree v).Settles Ends) :
    FailsOnly Ends (argumentsText (treeObject.items s tree shown c.params)) ∧
      FailsOnly Ends (hashText (treeObject.entries s tree shown c.hash)) := by
  obtain ⟨-, ⟨items, hitems, -⟩, entries, hentries, hhash⟩ := hc
  rw [HelperCall.parts, hitems, hentries] at htree
  rw [hitems, hentries, treeObject.items, treeObject.entries, argumentsText, hashText]
  refine ⟨argumentItems_failsOnly (List.forall_mem_map.2 fun v hv =>
    (htree v ?_).toWrites), hashItems_failsOnly (List.forall_mem_map.2 fun e he =>
      ⟨hshown _ ?_, (htree _ ?_).toWrites⟩)⟩
  · exact List.mem_append_left _ hv
  · obtain ⟨key, hkey⟩ := (hhash e he).1
    rw [hkey]
    exact data_of_not_object (by simp)
  · exact List.mem_append_right _ (List.mem_map_of_mem he)

/-- An expression has its texts if its parts have theirs. -/
theorem treeObject_expression_settles {e : Expression} (he : e.Sound s id)
    (hshown : ∀ v, s.Data v → FailsOnly Ends (shown v).plain)
    (htree : ∀ v ∈ e.parts, (tree v).Settles Ends) :
    (s.treeObject tree shown (.expression e)).Settles Ends := by
  cases e with
  | literal v => exact settles_literal (hshown v he)
  | path p => exact settles_path (hshown p he)
  | concat parts =>
    obtain ⟨items, rfl, -⟩ := he
    refine settles_concat ?_
    rw [treeObject.items, partsText]
    exact partItems_failsOnly (List.forall_mem_map.2 fun v hv => (htree v hv).toWrites)
  | subexpr c =>
    obtain ⟨hparams, hhash⟩ := helper_ends he hshown htree
    exact settles_subexpr hparams hhash _

/-- A morph has its text if its parts have theirs and the name of an attribute is no part. -/
theorem treeObject_morph_settles (hm : m.Sound s)
    (hname : ∀ key value owner, m = .attribute key value owner → s.Data key)
    (hshown : ∀ v, s.Data v → FailsOnly Ends (shown v).plain)
    (htree : ∀ v ∈ m.parts, (tree v).Settles Ends) (added : Fields) :
    (s.treeObject tree shown (.morph m added)).Settles Ends := by
  cases m with
  | inline c =>
    obtain ⟨hparams, hhash⟩ := helper_ends hm hshown htree
    exact settles_inline hparams hhash _
  | element c =>
    obtain ⟨hparams, hhash⟩ := helper_ends hm hshown htree
    exact settles_modifier hparams hhash _
  | «attribute» key value owner =>
    exact settles_attribute (hshown key (hname key value owner rfl))
      (htree value (by simp [Morph.parts])) _
  | content v => exact settles_content (hshown v hm)
  | block c primary alternate =>
    obtain ⟨hc, -, -⟩ := hm
    obtain ⟨name, hblock⟩ := hc.name
    have hplain : s.Data c.name := by
      rw [hblock]
      exact data_of_not_object (by simp)
    obtain ⟨hparams, hhash⟩ := helper_ends hc hshown fun v hv => htree v (List.mem_append_left _ hv)
    exact settles_block hparams hhash _ (hshown _ hplain) (htree primary (by simp [Morph.parts]))
      (htree alternate (by simp [Morph.parts]))

/-- A node has its text if its parts have theirs and no name of an attribute is a part. -/
theorem treeObject_node_settles (hn : n.Sound s) (hnames : ∀ tag ns entries bound modifiers,
      n.shape = .element tag ns (.own entries) bound modifiers → ∀ e ∈ entries, s.Data e.1)
    (hshown : ∀ v, s.Data v → FailsOnly Ends (shown v).plain)
    (htree : ∀ v ∈ n.shape.parts ++ n.items, (tree v).Settles Ends) (added : Fields) :
    (s.treeObject tree shown (.node n added)).Settles Ends := by
  obtain ⟨shape, children⟩ := n
  obtain ⟨⟨items, hitems, -⟩, hshape⟩ := hn
  simp only at hitems
  subst hitems
  have hchildren : ∀ step indent, FailsOnly Ends
      (childrenTexts step indent (.list (items.map tree))) :=
    childrenTexts_ends fun v hv => htree v (List.mem_append_right _ hv)
  cases shape with
  | fragment => exact settles_fragment hchildren
  | element tag ns attributes bound modifiers =>
    obtain ⟨⟨entries, rfl, htexts⟩, ⟨bs, rfl, -⟩, ms, rfl, -⟩ := hshape
    refine settles_element ?_ (childrenTexts_ends fun v hv => htree v ?_)
      (childrenTexts_ends fun v hv => htree v ?_) hchildren _ _
    · rw [treeObject.shownEntries, attributesText]
      refine attributeItems_failsOnly (List.forall_mem_map.2 fun e he =>
        ⟨hshown _ (hnames tag ns entries _ _ rfl e he), hshown _ ?_⟩)
      obtain ⟨text, htext⟩ := htexts e he
      rw [htext]
      exact data_of_not_object (by simp)
    · exact List.mem_append_left _ (List.mem_append_left _ hv)
    · exact List.mem_append_left _ (List.mem_append_right _ hv)
  | text contents => exact settles_text _ _
  | comment contents => exact settles_comment _ _
  | placeholder morph parent =>
    exact settles_placeholder (htree morph (by simp [Shape.parts])) _ _

end TreeObject

/-- **What is written out has its texts.** The open objects are all above the one that is written out,
so none is met again. -/
theorem Whole.treeWithin_settles (h : s.Whole v) (hs : s.Sound) (hnames : s.NamesData)
    {fuel : Nat} {opened : List ObjectId} (hopened : Trail s.HasPart s opened v)
    (hfuel : s.objects.size < opened.length + fuel) :
    (s.treeWithin fuel opened v).Settles Ends := by
  induction h generalizing fuel opened with
  | @scalar v hv =>
    obtain ⟨n, rfl, -⟩ := hopened.exists_fuel ⟨0⟩ hfuel
    cases v with
    | object id => exact absurd rfl (hv id)
    | _ => exact (data_of_not_object hv).settles_view rfl
  | @object id o ho hparts ih =>
    obtain ⟨n, rfl, hn⟩ := hopened.exists_fuel id hfuel
    have hid : id ∉ opened := hopened.not_mem ((Whole.object ho hparts).acc id rfl)
    have htree : ∀ w ∈ o.parts, (s.treeWithin n (id :: opened) w).Settles Ends := fun w hw =>
      ih w hw (hopened.open hid ho fun b hb => ⟨o, ho, hb ▸ hw⟩) hn
    have hshown : ∀ w, s.Data w → FailsOnly Ends
        (if s.isPrinted w then s.treeWithin n (id :: opened) w else s.view w).plain := by
      intro w hw
      rw [hw.1]
      exact hw.isPlain_view.plain_ends
    have hcontains : opened.contains id = false := by simpa using hid
    rw [treeWithin, asObject?_of_object? ho]
    simp only [hcontains, Bool.false_eq_true, if_false]
    cases o with
    | expression e =>
      exact treeObject_expression_settles (hs.expression id e (by rw [expression?, ho]; rfl)) hshown
        htree
    | morph m added =>
      have hm : s.morph? id = some m := by rw [morph?, ho]; rfl
      refine treeObject_morph_settles (hs.morph id m hm) ?_ hshown htree added
      rintro key value owner rfl
      exact hnames.bound id key value owner hm
    | node n added =>
      have hn : s.node? id = some n := by rw [node?, ho]; rfl
      refine treeObject_node_settles (hs.node id n hn) ?_ hshown htree added
      obtain ⟨shape, children⟩ := n
      rintro tag ns entries bound modifiers rfl
      exact hnames.static id tag ns entries bound modifiers children hn
    | _ =>
      refine Data.settles_view ⟨isPrinted_object ho, fun i hi => ?_⟩ (by
        rw [isExpression, asObject?_of_object? ho])
      cases hi
      exact ⟨_, ho⟩

theorem Orderly.printAt_ends (hs : s.Orderly base) (hnames : s.NamesData) (hv : s.IsNode v)
    (indent step : Value) (t : Store) : Method.printAt v indent step s ≠ .error .endless t := by
  have hsettles : (s.tree v).Settles Ends :=
    (hs.whole_of_isNode hv).treeWithin_settles hs.sound hnames (trail_nil _ s v)
      (by simp [viewFuel])
  have hprint : Method.printAt v indent step s =
      (Act.lift ((s.tree v).toText (s.view indent) (s.view step)) >>= fun text =>
        return Value.str text : Act Value) s := rfl
  rw [hprint]
  cases htext : (s.tree v).toText (s.view indent) (s.view step) with
  | ok text =>
    intro h
    cases h
  | error fault =>
    intro h
    cases h
    exact hsettles.render _ _ _ htext rfl

end Store

/-! ### Runs -/

def Store.fresh : Store := Hook.newEnvironment.after {}

theorem Store.admits_of_kindOf?_eq_none (h : Method.kindOf? o = none) : s.Admits o := by
  refine ⟨by rw [h]; rfl, fun e he => ?_⟩
  cases o with
  | expression e => cases h
  | _ => cases he

theorem Store.orderly_fresh : fresh.Orderly 0 := by
  have hempty : ({} : Store).Orderly 0 :=
    ⟨⟨by rintro _ _ ⟨⟩, by rintro _ _ ⟨⟩, by rintro _ _ ⟨⟩⟩, fun _ => List.nodup_nil,
      by rintro _ _ _ ⟨⟩, ⟨fun _ => 0, by rintro _ _ (⟨⟨⟩⟩ | ⟨⟨⟩⟩)⟩, by rintro _ _ _ ⟨⟩,
      by rintro _ _ ⟨⟩, fun _ _ _ _ => Nat.zero_le _⟩
  exact ((hempty.push_data (admits_of_kindOf?_eq_none rfl)).push_data
    (admits_of_kindOf?_eq_none (o := .hooks) rfl)).push_data
      (admits_of_kindOf?_eq_none (o := .environment _ _) rfl)

/-- **Every store of a run is a forest**, and if no attribute in it is named by a node or a morph,
printing any of its nodes ends. -/
theorem run_keeps_forest {t : Store} (h : Run 0 Store.fresh t) :
    t.Forest ∧ (t.NamesData → ∀ v, t.IsNode v → ∀ indent step u,
      Method.printAt v indent step t ≠ .error .endless u) := by
  have ht := (h.advances (Nat.zero_le _) orderly_fresh).orderly
  exact ⟨ht.forest, fun hnames v hv indent step u => ht.printAt_ends hnames hv indent step u⟩

/-- A machine that recovers every template as an empty fragment of a new document. -/
def emptyBranches : Machine where
  recover _ := do
    let _ ← Hook.newEnvironment
    createFragment
  call _ _ := Act.fail .wrongType

def looseSample : Store :=
  (call ⟨0⟩ .createTextNode [.str "a"]).after
    ((call ⟨0⟩ .createDocumentFragment []).after fresh)

/-- The fragment, whose only child was the text, with a placeholder in its place. -/
def splicedSample : Store :=
  (call ⟨0⟩ .createMorphAt [.object ⟨3⟩, .int 0, .int 0]).after
    ((call ⟨0⟩ .appendChild [.object ⟨3⟩, .object ⟨4⟩]).after looseSample)

/-- The fragment with a block in the place of the text. -/
def blockSample : Store :=
  (Hook.call emptyBranches .block [.object ⟨5⟩, .str "if", .object ⟨6⟩, .null, .str "t"]).after
    (splicedSample.push (.list []))

theorem Store.own_object (h : s.object? id = some o) : s.Own 0 (.object id) := by
  rintro i hi
  cases hi
  exact ⟨o, h, fun _ => Nat.zero_le _⟩

theorem Store.own_of_not_object (h : ∀ id, v ≠ .object id) : s.Own base v :=
  fun id hid => absurd hid (h id)

theorem looseSample_placeable : looseSample.Placeable ⟨3⟩ ⟨4⟩ := by
  have hchildren : ∀ q, looseSample.children q = [] := by
    rintro ⟨i⟩
    rcases i with _ | _ | _ | _ | _ | i <;> rfl
  refine ⟨fun q hq => ?_, fun h => ?_⟩
  · rw [hchildren] at hq
    cases hq
  · rcases Relation.ReflTransGen.cases_head h with h | ⟨b, hb, -⟩
    · cases h
    · rcases hb with hb | hb
      · rw [hchildren] at hb
        cases hb
      · cases hb

theorem splicedSample_run : Run 0 fresh splicedSample := by
  have hfragment : Run 0 fresh
      ((call ⟨0⟩ .createDocumentFragment []).after fresh) :=
    .document _ _ _ (.start 0 _) le_rfl (by simp) (by simp)
  have hloose : Run 0 fresh looseSample :=
    .document _ _ _ hfragment le_rfl (by simp [own_of_not_object]) (by simp)
  have happended := Run.document ⟨0⟩ .appendChild [.object ⟨3⟩, .object ⟨4⟩] hloose le_rfl
    (List.forall_mem_cons.2 ⟨own_object rfl, List.forall_mem_singleton.2 (own_object rfl)⟩)
    (by rintro - p c ⟨⟩; exact looseSample_placeable)
  refine .document _ _ _ happended le_rfl ?_ (by simp)
  exact List.forall_mem_cons.2 ⟨own_object rfl, by simp [own_of_not_object]⟩

theorem emptyBranches_run (branch : Value) (u : Store) :
    Run u.objects.size u ((emptyBranches.recover branch).after u) := by
  have hdocument := (Run.start u.objects.size u).allocate (o := .document .null)
    (admits_of_kindOf?_eq_none rfl)
  have henvironment := (hdocument.allocate (o := .hooks) (admits_of_kindOf?_eq_none rfl)).allocate
    (o := .environment (.object u.next) (.object (u.push (.document .null)).next))
    (admits_of_kindOf?_eq_none rfl)
  exact .document u.next .createDocumentFragment [] henvironment le_rfl (by simp) (by simp)

theorem blockSample_run : Run 0 fresh blockSample := by
  have hlist := splicedSample_run.allocate (o := .list []) (admits_of_kindOf?_eq_none rfl)
  refine .hook emptyBranches .block _ hlist ?_ ?_ (fun branch u _ => emptyBranches_run branch u) ?_
  · exact List.forall_mem_cons.2 ⟨own_object rfl, List.forall_mem_cons.2
      ⟨own_of_not_object (by simp), List.forall_mem_cons.2
        ⟨own_object rfl, by simp [own_of_not_object]⟩⟩⟩
  · rintro v ⟨⟩
  · rintro branch u root v - h
    cases h
    refine ⟨⟨.fragment, _, _, rfl, object?_push_next _ _, rfl⟩, fun id hid => ?_⟩
    cases hid
    simp only [Array.size_push]
    omega

/-- The run of a block, with a placeholder in the place of a text and a branch of its own. -/
theorem run_keeps_forest_sample : blockSample.NamesData ∧ blockSample.Forest ∧
    ∀ indent step u, Method.printAt (.object ⟨3⟩) indent step blockSample ≠ .error .endless u := by
  have hnames : blockSample.NamesData := by
    constructor
    · rintro ⟨i⟩ tag ns entries bound modifiers children h
      rcases i with _ | _ | _ | _ | _ | _ | _ | _ | _ | _ | _ | _ | i <;> cases h
    · rintro ⟨i⟩ key value owner h
      rcases i with _ | _ | _ | _ | _ | _ | _ | _ | _ | _ | _ | _ | i <;> cases h
  have h := run_keeps_forest blockSample_run
  exact ⟨hnames, h.1, h.2 hnames _ ⟨.fragment, ⟨3⟩, _, rfl, rfl, rfl⟩⟩

/-- An element that is the name of its own attribute. -/
def namedSample : Store :=
  (call ⟨0⟩ .setAttribute [.object ⟨3⟩, .object ⟨3⟩, .str "x"]).after
    ((call ⟨0⟩ .createElement [.str "p"]).after fresh)

/-- An element may be the name of its own attribute, and printing it does not end. -/
theorem run_prints_endlessly : Run 0 Store.fresh namedSample ∧
    namedSample.IsNode (.object ⟨3⟩) ∧
    Method.printAt (.object ⟨3⟩) (.int 0) .null namedSample = .error .endless namedSample := by
  refine ⟨?_, ⟨.element, ⟨3⟩, _, rfl, rfl, rfl⟩, rfl⟩
  have helement : Run 0 fresh ((call ⟨0⟩ .createElement [.str "p"]).after fresh) :=
    .document _ _ _ (.start 0 _) le_rfl (by simp [own_of_not_object]) (by simp)
  refine .document _ _ _ helement le_rfl ?_ (by simp)
  exact List.forall_mem_cons.2 ⟨own_object rfl, List.forall_mem_cons.2
    ⟨own_object rfl, by simp [own_of_not_object]⟩⟩

end TemplateRecovery
