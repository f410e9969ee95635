import TemplateRecovery.Proofs.Frozen

/-!
# Unfolding a tree

What a part prints is written out by following its parts, with the open objects and a bound on the
depth at hand. As long as no part is inside itself, neither matters: the tree of a part is made of the
trees of its parts, whatever is around it.

* `Store.treed` are the parts of an object that belong to the tree, `Store.worded` are those that are
  shown by their text.
* `Store.Inherited.parts` passes a property on to these parts.
* `Store.Passes` relates an object to the parts that it prints.
* `Store.treeObject_congr` says that what an object prints depends on those parts only.
* `Store.tree_object` unfolds a tree by one object.
-/

namespace TemplateRecovery

open View

variable {v : Value} {o : Object} {id : ObjectId} {opened : List ObjectId}

/-- The container that others may hold, if there is one. -/
def Held.holder {α : Type} : Held α → List Value
  | .own _ => []
  | .shared v => [v]

def HelperCall.holders (c : HelperCall) : List Value := c.params.holder ++ c.hash.holder

/-- The containers of an object that others may hold. -/
def Object.holders : Object → List Value
  | .expression (.concat parts) => parts.holder
  | .expression (.subexpr c) => c.holders
  | .morph (.inline c) _ => c.holders
  | .morph (.element c) _ => c.holders
  | .morph (.block c _ _) _ => c.holders
  | .node ⟨.fragment, children⟩ _ => children.holder
  | .node ⟨.element _ _ attributes bound modifiers, children⟩ _ =>
    attributes.holder ++ bound.holder ++ modifiers.holder ++ children.holder
  | _ => []

/-- Expressions, morphs and nodes print by following their parts. -/
def Object.isPart : Object → Bool
  | .expression _ => true
  | .morph _ _ => true
  | .node _ _ => true
  | _ => false

theorem Held.mem_listed_of_holder {held : Held (List Value)} (hv : v ∈ held.holder) :
    v ∈ held.listed := by
  cases held with
  | own items => cases hv
  | shared w => exact hv

theorem Held.mem_paired_of_holder {held : Held Entries} (hv : v ∈ held.holder) :
    v ∈ held.paired := by
  cases held with
  | own entries => cases hv
  | shared w => exact hv

theorem HelperCall.mem_contents_of_holder {c : HelperCall} (hv : v ∈ c.holders) :
    v ∈ c.contents := by
  rcases List.mem_append.1 hv with hv | hv
  · exact List.mem_cons_of_mem _ (List.mem_append_left _ (Held.mem_listed_of_holder hv))
  · exact List.mem_cons_of_mem _ (List.mem_append_right _ (Held.mem_paired_of_holder hv))

namespace Store

/-! ### The parts of an object -/

/-- The parts in a container that belong to the tree. -/
def treedItems (s : Store) : Held (List Value) → List Value
  | .own items => items
  | .shared v =>
    match s.asObject? v with
    | some (_, .list items) => items
    | some (_, .tuple items) => items
    | some (_, .map entries) => entries.flatMap fun e => [e.1, e.2]
    | _ => []

/-- What is shown in place of a container by its text. -/
def wordedItems (s : Store) : Held (List Value) → List Value
  | .own _ => []
  | .shared v =>
    match s.asObject? v with
    | some (_, .list _) => []
    | some (_, .tuple _) => []
    | some (_, .map _) => []
    | _ => [v]

def treedEntries (s : Store) : Held Entries → List Value
  | .own entries => entries.map Prod.snd
  | .shared v => ((s.entries? v).getD []).map Prod.snd

/-- The keys of a mapping, or what is there instead of one. -/
def wordedEntries (s : Store) : Held Entries → List Value
  | .own entries => entries.map Prod.fst
  | .shared v =>
    match s.entries? v with
    | some entries => entries.map Prod.fst
    | none => [v]

def treedCall (s : Store) (c : HelperCall) : List Value :=
  s.treedItems c.params ++ s.treedEntries c.hash

def wordedCall (s : Store) (c : HelperCall) : List Value :=
  c.name :: s.wordedItems c.params ++ s.wordedEntries c.hash

/-- The parts of an object that belong to the tree. -/
def treed (s : Store) : Object → List Value
  | .expression (.concat parts) => s.treedItems parts
  | .expression (.subexpr c) => s.treedCall c
  | .morph (.inline c) _ => s.treedCall c
  | .morph (.element c) _ => s.treedCall c
  | .morph (.attribute _ value _) _ => [value]
  | .morph (.block c primary alternate) _ => primary :: alternate :: s.treedCall c
  | .node ⟨.fragment, children⟩ _ => s.treedItems children
  | .node ⟨.element _ _ _ bound modifiers, children⟩ _ =>
    s.treedItems bound ++ s.treedItems modifiers ++ s.treedItems children
  | .node ⟨.placeholder morph _, _⟩ _ => [morph]
  | _ => []

/-- The parts of an object that are shown by their text. -/
def worded (s : Store) : Object → List Value
  | .expression (.literal v) => [v]
  | .expression (.path p) => [p]
  | .expression (.concat parts) => s.wordedItems parts
  | .expression (.subexpr c) => s.wordedCall c
  | .morph (.inline c) _ => s.wordedCall c
  | .morph (.element c) _ => s.wordedCall c
  | .morph (.attribute key _ _) _ => [key]
  | .morph (.content v) _ => [v]
  | .morph (.block c _ _) _ => s.wordedCall c
  | .node ⟨.fragment, children⟩ _ => s.wordedItems children
  | .node ⟨.element tag _ attributes bound modifiers, children⟩ _ =>
    tag :: s.wordedEntries attributes ++ s.treedEntries attributes ++ s.wordedItems bound ++
      s.wordedItems modifiers ++ s.wordedItems children
  | .node ⟨.text contents, _⟩ _ => [contents]
  | .node ⟨.comment contents, _⟩ _ => [contents]
  | _ => []

/-! ### What parts inherit -/

/-- A property that an object passes on to what it contains. -/
def Inherited (s : Store) (P : Value → Prop) : Prop :=
  ∀ id o, P (.object id) → s.object? id = some o → ∀ w ∈ s.contents o, P w

namespace Inherited

variable {s : Store} {P : Value → Prop} (hP : s.Inherited P)

include hP

theorem items (held : Held (List Value)) (h : ∀ v ∈ held.listed, P v) :
    ∀ w ∈ s.treedItems held ++ s.wordedItems held, P w := by
  cases held with
  | own items => simpa [treedItems, wordedItems, Held.listed] using h
  | shared v =>
    have hv : P v := h v (List.mem_singleton_self v)
    have hinside : ∀ {id o w}, s.asObject? v = some (id, o) → w ∈ s.contents o → P w := by
      intro id o w hobject hw
      obtain ⟨rfl, ho⟩ := asObject?_eq_some hobject
      exact hP _ _ hv ho w hw
    intro w hw
    simp only [treedItems, wordedItems] at hw
    split at hw
    · next hobject => exact hinside hobject (by simpa [contents] using hw)
    · next hobject => exact hinside hobject (by simpa [contents] using hw)
    · next hobject => exact hinside hobject (by simpa [contents] using hw)
    · rwa [List.mem_singleton.1 hw]

theorem entries (held : Held Entries) (h : ∀ v ∈ held.paired, P v) :
    ∀ w ∈ s.treedEntries held ++ s.wordedEntries held, P w := by
  have hpair : ∀ (entries : Entries) (w : Value), w ∈ entries.map Prod.snd ++ entries.map Prod.fst →
      w ∈ entries.flatMap fun e => [e.1, e.2] := by
    intro entries w hw
    simp only [List.mem_append, List.mem_map] at hw
    rcases hw with ⟨e, he, rfl⟩ | ⟨e, he, rfl⟩
    · exact List.mem_flatMap.2 ⟨e, he, by simp⟩
    · exact List.mem_flatMap.2 ⟨e, he, by simp⟩
  cases held with
  | own entries => exact fun w hw => h w (hpair entries w hw)
  | shared v =>
    have hv : P v := h v (List.mem_singleton_self v)
    intro w hw
    simp only [treedEntries, wordedEntries] at hw
    cases hentries : s.entries? v with
    | some entries =>
      obtain ⟨id, rfl, ho⟩ := entries?_eq_some hentries
      rw [hentries] at hw
      exact hP _ _ hv ho w (hpair entries w hw)
    | none =>
      rw [hentries] at hw
      rwa [List.mem_singleton.1 hw]

theorem call (c : HelperCall) (h : ∀ v ∈ c.contents, P v) :
    ∀ w ∈ s.treedCall c ++ s.wordedCall c, P w := by
  simp only [HelperCall.contents, List.mem_cons, List.mem_append] at h
  have hparams := hP.items c.params fun v hv => h v (.inr (.inl hv))
  have hhash := hP.entries c.hash fun v hv => h v (.inr (.inr hv))
  simp only [List.mem_append] at hparams hhash
  intro w hw
  simp only [treedCall, wordedCall, List.mem_append, List.mem_cons] at hw
  rcases hw with (hw | hw) | (rfl | hw) | hw
  · exact hparams w (.inl hw)
  · exact hhash w (.inl hw)
  · exact h _ (.inl rfl)
  · exact hparams w (.inr hw)
  · exact hhash w (.inr hw)

/-- What an object contains passes the property on to the parts that are printed. -/
theorem parts (h : ∀ v ∈ s.contents o, P v) : ∀ w ∈ s.treed o ++ s.worded o, P w := by
  cases o with
  | expression e =>
    cases e with
    | literal v | path v => simpa [treed, worded, contents] using h
    | concat parts => exact hP.items parts h
    | subexpr c => exact hP.call c h
  | morph m added =>
    cases m with
    | inline c | element c => exact hP.call c h
    | «attribute» key value owner =>
      intro w hw
      refine h w ?_
      simp only [treed, worded, contents, List.mem_append, List.mem_cons] at hw ⊢
      tauto
    | content v => simpa [treed, worded, contents] using h
    | block c primary alternate =>
      have hcall := hP.call c fun v hv => h v (by simp [contents, hv])
      intro w hw
      simp only [treed, worded, List.mem_append, List.mem_cons] at hw hcall
      rcases hw with (rfl | rfl | hw) | hw
      · exact h w (by simp [contents])
      · exact h w (by simp [contents])
      · exact hcall w (.inl hw)
      · exact hcall w (.inr hw)
  | node n added =>
    obtain ⟨shape, children⟩ := n
    have hchildren := hP.items children fun v hv => h v (by simp [contents, hv])
    cases shape with
    | fragment => exact hchildren
    | element tag ns attributes bound modifiers =>
      have hattributes := hP.entries attributes fun v hv =>
        h v (by simp [contents, Shape.contents, hv])
      have hbound := hP.items bound fun v hv =>
        h v (by simp [contents, Shape.contents, hv])
      have hmodifiers := hP.items modifiers fun v hv =>
        h v (by simp [contents, Shape.contents, hv])
      have htag := h tag (by simp [contents, Shape.contents])
      simp only [List.mem_append] at hattributes hbound hmodifiers hchildren
      intro w hw
      simp only [treed, worded, List.mem_append, List.mem_cons] at hw
      rcases hw with ((hw | hw) | hw) | ((((rfl | hw) | hw) | hw) | hw) | hw
      · exact hbound w (.inl hw)
      · exact hmodifiers w (.inl hw)
      · exact hchildren w (.inl hw)
      · exact htag
      · exact hattributes w (.inr hw)
      · exact hattributes w (.inl hw)
      · exact hbound w (.inr hw)
      · exact hmodifiers w (.inr hw)
      · exact hchildren w (.inr hw)
    | text v | comment v =>
      intro w hw
      simp only [treed, worded, List.nil_append, List.mem_singleton] at hw
      exact h w (by simp [contents, Shape.contents, hw])
    | placeholder morph parent =>
      intro w hw
      simp only [treed, worded, List.append_nil, List.mem_singleton] at hw
      exact h w (by simp [contents, Shape.contents, hw])
  | _ => simp [treed, worded]

end Inherited

/-- A container that others may hold is among what an object passes on. -/
theorem mem_contents_of_holder (s : Store) (hv : v ∈ o.holders) : v ∈ s.contents o := by
  unfold Object.holders at hv
  split at hv
  · exact Held.mem_listed_of_holder hv
  · exact HelperCall.mem_contents_of_holder hv
  · exact HelperCall.mem_contents_of_holder hv
  · exact HelperCall.mem_contents_of_holder hv
  · exact List.mem_cons_of_mem _ (List.mem_cons_of_mem _ (HelperCall.mem_contents_of_holder hv))
  · exact List.mem_append_right _ (Held.mem_listed_of_holder hv)
  · simp only [contents, Shape.contents, List.mem_append, List.mem_cons] at hv ⊢
    rcases hv with ((hv | hv) | hv) | hv
    · exact .inl (.inr (.inr (.inl (Held.mem_paired_of_holder hv))))
    · exact .inl (.inr (.inr (.inr (.inl (Held.mem_listed_of_holder hv)))))
    · exact .inl (.inr (.inr (.inr (.inr (Held.mem_listed_of_holder hv)))))
    · exact .inr (Held.mem_listed_of_holder hv)
  · cases hv

/-! ### What an object prints depends on its parts -/

section Congruence

variable {s t : Store} {tree tree' shown shown' : Value → View}

theorem treeObject_items_congr {h : Held (List Value)}
    (hholder : ∀ v ∈ h.holder, t.asObject? v = s.asObject? v)
    (htree : ∀ v ∈ s.treedItems h, tree' v = tree v) (hshown : ∀ v ∈ s.wordedItems h, shown' v = shown v) :
    treeObject.items t tree' shown' h = treeObject.items s tree shown h := by
  cases h with
  | own items => exact congrArg list (List.map_congr_left htree)
  | shared v =>
    simp only [treeObject.items, treeObject.container, hholder v (by simp [Held.holder])]
    simp only [treedItems, wordedItems] at htree hshown
    split
    · next items hv =>
      rw [hv] at htree
      exact congrArg list (List.map_congr_left htree)
    · next items hv =>
      rw [hv] at htree
      exact congrArg tuple (List.map_congr_left htree)
    · next entries hv =>
      rw [hv] at htree
      refine congrArg map (List.map_congr_left fun e he => ?_)
      have hmem : ∀ v ∈ [e.1, e.2], tree' v = tree v :=
        fun v hv => htree v (List.mem_flatMap.2 ⟨e, he, hv⟩)
      rw [hmem e.1 (by simp), hmem e.2 (by simp)]
    · next hlist htuple hmap =>
      refine hshown v ?_
      split
      · next hv => exact absurd hv (hlist _ _)
      · next hv => exact absurd hv (htuple _ _)
      · next hv => exact absurd hv (hmap _ _)
      · exact List.mem_singleton_self v

theorem map_entries_congr {entries : Entries} {f f' g g' : Value → View}
    (hkey : ∀ k ∈ entries.map Prod.fst, f' k = f k) (hvalue : ∀ v ∈ entries.map Prod.snd, g' v = g v) :
    entries.map (fun (k, v) => (f' k, g' v)) = entries.map fun (k, v) => (f k, g v) := by
  refine List.map_congr_left fun e he => ?_
  exact congrArg₂ Prod.mk (hkey e.1 (List.mem_map_of_mem he)) (hvalue e.2 (List.mem_map_of_mem he))

theorem treeObject_entries_congr {h : Held Entries}
    (hholder : ∀ v ∈ h.holder, t.asObject? v = s.asObject? v)
    (htree : ∀ v ∈ s.treedEntries h, tree' v = tree v)
    (hshown : ∀ v ∈ s.wordedEntries h, shown' v = shown v) :
    treeObject.entries t tree' shown' h = treeObject.entries s tree shown h := by
  cases h with
  | own entries => exact congrArg map (map_entries_congr hshown htree)
  | shared v =>
    have hentries : t.entries? v = s.entries? v := by
      rw [entries?, entries?, hholder v (by simp [Held.holder])]
    simp only [treeObject.entries, hentries]
    simp only [treedEntries, wordedEntries] at htree hshown
    cases hv : s.entries? v with
    | some entries =>
      rw [hv] at htree hshown
      exact congrArg map (map_entries_congr hshown htree)
    | none =>
      rw [hv] at hshown
      exact hshown v (List.mem_singleton_self v)

theorem treeObject_shownEntries_congr {h : Held Entries}
    (hholder : ∀ v ∈ h.holder, t.asObject? v = s.asObject? v)
    (hvalue : ∀ v ∈ s.treedEntries h, shown' v = shown v)
    (hkey : ∀ v ∈ s.wordedEntries h, shown' v = shown v) :
    treeObject.shownEntries t shown' h = treeObject.shownEntries s shown h := by
  cases h with
  | own entries => exact congrArg map (map_entries_congr hkey hvalue)
  | shared v =>
    have hentries : t.entries? v = s.entries? v := by
      rw [entries?, entries?, hholder v (by simp [Held.holder])]
    simp only [treeObject.shownEntries, hentries]
    simp only [treedEntries, wordedEntries] at hvalue hkey
    cases hv : s.entries? v with
    | some entries =>
      rw [hv] at hvalue hkey
      exact congrArg map (map_entries_congr hkey hvalue)
    | none =>
      rw [hv] at hkey
      exact hkey v (List.mem_singleton_self v)

/-- What is printed of the call of a helper. -/
theorem treeObject_call_congr {c : HelperCall}
    (hholder : ∀ v ∈ c.holders, t.asObject? v = s.asObject? v)
    (htree : ∀ v ∈ s.treedCall c, tree' v = tree v)
    (hshown : ∀ v ∈ s.wordedCall c, shown' v = shown v) :
    shown' c.name = shown c.name ∧
      treeObject.items t tree' shown' c.params = treeObject.items s tree shown c.params ∧
      treeObject.entries t tree' shown' c.hash = treeObject.entries s tree shown c.hash := by
  simp only [HelperCall.holders, treedCall, wordedCall, List.mem_append, List.mem_cons] at *
  exact ⟨hshown _ (.inl (.inl rfl)),
    treeObject_items_congr (fun v hv => hholder v (.inl hv)) (fun v hv => htree v (.inl hv))
      fun v hv => hshown v (.inl (.inr hv)),
    treeObject_entries_congr (fun v hv => hholder v (.inr hv)) (fun v hv => htree v (.inr hv))
      fun v hv => hshown v (.inr hv)⟩

/-- **What an object prints** depends on its parts and on the containers that hold them. -/
theorem treeObject_congr (hholder : ∀ v ∈ o.holders, t.asObject? v = s.asObject? v)
    (htree : ∀ v ∈ s.treed o, tree' v = tree v) (hshown : ∀ v ∈ s.worded o, shown' v = shown v) :
    t.treeObject tree' shown' o = s.treeObject tree shown o := by
  cases o with
  | expression e =>
    cases e with
    | literal v => exact congrArg literal (hshown v (List.mem_singleton_self v))
    | path p => exact congrArg path (hshown p (List.mem_singleton_self p))
    | concat parts => exact congrArg concat (treeObject_items_congr hholder htree hshown)
    | subexpr c =>
      obtain ⟨hname, hparams, hhash⟩ := treeObject_call_congr hholder htree hshown
      simp only [treeObject, hname, hparams, hhash]
  | morph m added =>
    cases m with
    | inline c | element c =>
      obtain ⟨hname, hparams, hhash⟩ := treeObject_call_congr hholder htree hshown
      simp only [treeObject, hname, hparams, hhash]
    | «attribute» key value owner =>
      simp only [treeObject, hshown key (List.mem_singleton_self key),
        htree value (List.mem_singleton_self value)]
    | content v => exact congrArg content (hshown v (List.mem_singleton_self v))
    | block c primary alternate =>
      obtain ⟨hname, hparams, hhash⟩ := treeObject_call_congr hholder
        (fun v hv => htree v (List.mem_cons_of_mem _ (List.mem_cons_of_mem _ hv))) hshown
      simp only [treeObject, hname, hparams, hhash, htree primary List.mem_cons_self,
        htree alternate (List.mem_cons_of_mem _ List.mem_cons_self)]
  | node n added =>
    obtain ⟨shape, children⟩ := n
    cases shape with
    | fragment => exact congrArg fragment (treeObject_items_congr hholder htree hshown)
    | element tag ns attributes bound modifiers =>
      simp only [Object.holders, treed, worded, List.mem_append, List.mem_cons] at *
      have hattributes := treeObject_shownEntries_congr (h := attributes)
        (fun v hv => hholder v (.inl (.inl (.inl hv))))
        (fun v hv => hshown v (.inl (.inl (.inl (.inr hv)))))
        fun v hv => hshown v (.inl (.inl (.inl (.inl (.inr hv)))))
      have hbound := treeObject_items_congr (h := bound)
        (fun v hv => hholder v (.inl (.inl (.inr hv)))) (fun v hv => htree v (.inl (.inl hv)))
        fun v hv => hshown v (.inl (.inl (.inr hv)))
      have hmodifiers := treeObject_items_congr (h := modifiers)
        (fun v hv => hholder v (.inl (.inr hv))) (fun v hv => htree v (.inl (.inr hv)))
        fun v hv => hshown v (.inl (.inr hv))
      have hchildren := treeObject_items_congr (h := children) (fun v hv => hholder v (.inr hv))
        (fun v hv => htree v (.inr hv)) fun v hv => hshown v (.inr hv)
      simp only [treeObject, hshown tag (.inl (.inl (.inl (.inl (.inl rfl))))), hattributes, hbound,
        hmodifiers, hchildren]
    | text contents =>
      simp only [treeObject, hshown contents (List.mem_singleton_self contents)]
    | comment contents =>
      simp only [treeObject, hshown contents (List.mem_singleton_self contents)]
    | placeholder morph parent =>
      simp only [treeObject, htree morph (List.mem_singleton_self morph)]
  | _ => rfl

end Congruence

/-! ### Unfolding -/

variable {s : Store}

/-- The parts that an object prints by following them. -/
def passed (s : Store) (o : Object) : List Value := s.treed o ++ (s.worded o).filter (s.isPrinted ·)

/-- An object prints another one by following it. -/
def Passes (s : Store) (a b : ObjectId) : Prop := ∃ o, s.object? a = some o ∧ .object b ∈ s.passed o

/-- A value that is no part of itself, nor is any part of it. -/
def Finite (s : Store) (v : Value) : Prop :=
  ∀ id, v = .object id → Acc (fun b a => s.Passes a b) id

theorem Finite.of_mem {w : Value} (h : s.Finite (.object id)) (ho : s.object? id = some o)
    (hw : w ∈ s.passed o) : s.Finite w := by
  rintro b rfl
  exact (h id rfl).inv ⟨o, ho, hw⟩

theorem finite_of_not_object (h : ∀ id, v ≠ .object id) : s.Finite v :=
  fun id hid => absurd hid (h id)

theorem finite_of_parts (ho : s.object? id = some o) (h : ∀ w ∈ s.passed o, s.Finite w) :
    s.Finite (.object id) := by
  rintro _ ⟨⟩
  refine ⟨id, fun b hb => ?_⟩
  obtain ⟨p, hp, hb⟩ := hb
  rw [ho] at hp
  cases hp
  exact h _ hb b rfl

/-- A value as it is shown by its text. -/
def shown (s : Store) (v : Value) : View := if s.isPrinted v then s.tree v else s.view v

theorem tree_of_not_object (h : s.asObject? v = none) : s.tree v = s.view v := by
  rw [tree, treeWithin, h]

theorem treeWithin_object (ho : s.object? id = some o) (hid : id ∉ opened) (fuel : Nat) :
    s.treeWithin (fuel + 1) opened (.object id) =
      if o.isPart then
        s.treeObject (s.treeWithin fuel (id :: opened))
          (fun w => if s.isPrinted w then s.treeWithin fuel (id :: opened) w else s.view w) o
      else s.view (.object id) := by
  rw [treeWithin, asObject?_of_object? ho]
  simp only [List.contains_eq_mem, hid, decide_false, Bool.false_eq_true, if_false]
  cases o <;> rfl

/-- An object is made of the trees of its parts, if these are found. -/
theorem treeWithin_parts (ho : s.object? id = some o) (hid : id ∉ opened) {fuel : Nat}
    (hparts : ∀ w ∈ s.passed o, s.treeWithin fuel (id :: opened) w = s.tree w) :
    s.treeWithin (fuel + 1) opened (.object id) =
      if o.isPart then s.treeObject s.tree s.shown o else s.view (.object id) := by
  rw [treeWithin_object ho hid]
  split_ifs
  · refine treeObject_congr (fun _ _ => rfl) (fun w hw => hparts w (List.mem_append_left _ hw)) ?_
    intro w hw
    rw [shown]
    split_ifs with hprinted
    · exact hparts w (List.mem_append_right _ (List.mem_filter.2 ⟨hw, hprinted⟩))
    · rfl
  · rfl

/-- A part is written out in the same way inside any open objects that lead to it, however deep one
may look. -/
theorem Finite.treeWithin_eq (h : s.Finite v) {fuel : Nat} (hopened : Trail s.Passes s opened v)
    (hfuel : s.objects.size < opened.length + fuel) : s.treeWithin fuel opened v = s.tree v := by
  cases hv : s.asObject? v with
  | none =>
    obtain ⟨n, rfl, -⟩ := hopened.exists_fuel ⟨0⟩ hfuel
    rw [tree_of_not_object hv, treeWithin, hv]
  | some found =>
    obtain ⟨id, o⟩ := found
    obtain ⟨rfl, ho⟩ := asObject?_eq_some hv
    clear hv
    induction h id rfl generalizing fuel opened o with
    | intro id hacc ih =>
      -- The same argument serves the open objects at hand and none at all.
      have hparts : ∀ (n : Nat) (opened : List ObjectId), Trail s.Passes s opened (.object id) →
          s.objects.size < (id :: opened).length + n →
          ∀ w ∈ s.passed o, s.treeWithin n (id :: opened) w = s.tree w := by
        intro n opened hopened hn w hw
        have htrail : Trail s.Passes s (id :: opened) w :=
          hopened.open (hopened.not_mem (h id rfl)) ho fun b hb => ⟨o, ho, hb ▸ hw⟩
        cases hw' : s.asObject? w with
        | none =>
          obtain ⟨m, rfl, -⟩ := htrail.exists_fuel ⟨0⟩ hn
          rw [tree_of_not_object hw', treeWithin, hw']
        | some found =>
          obtain ⟨b, p⟩ := found
          obtain ⟨rfl, hp⟩ := asObject?_eq_some hw'
          exact ih b ⟨o, ho, hw⟩ hn p hp (h.of_mem ho hw) htrail
      obtain ⟨n, rfl, hn⟩ := hopened.exists_fuel id hfuel
      rw [treeWithin_parts ho (hopened.not_mem (h id rfl)) (hparts n opened hopened hn)]
      rw [tree, viewFuel, treeWithin_parts ho (by simp)
        (hparts _ [] (trail_nil _ s _) (by simp only [List.length_singleton]; omega))]

/-- **A finite object prints by the trees of its parts.** -/
theorem Finite.tree_object (h : s.Finite (.object id)) (ho : s.object? id = some o)
    (hpart : o.isPart = true) : s.tree (.object id) = s.treeObject s.tree s.shown o := by
  have hparts : ∀ w ∈ s.passed o, s.treeWithin (s.objects.size + 1) [id] w = s.tree w := by
    intro w hw
    have htrail : Trail s.Passes s [id] w :=
      (trail_nil _ s _).open (by simp) ho fun b hb => ⟨o, ho, hb ▸ hw⟩
    exact (h.of_mem ho hw).treeWithin_eq htrail (by simp only [List.length_singleton]; omega)
  rw [tree, viewFuel, treeWithin_parts ho (by simp) hparts, if_pos hpart]

end Store

end TemplateRecovery
