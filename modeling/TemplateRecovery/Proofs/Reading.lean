import TemplateRecovery.Proofs.Frozen
import TemplateRecovery.Proofs.Taxonomy

/-!
# Reading arguments in a later store

The arguments of a statement are arrays and plain values. As long as they show no object that changes,
they are read alike in every later store, and the expressions that they denote are written out alike.

* `Store.Grounded` are values whose arrays can be opened to the end.
* `Store.Frozen.ofValue_frame` says that frozen values are the same arrays in two stores.
* `Opcode.Expr.Holds` says that the values in an expression are of some kind.
* `Expr.view` is an expression written out.
* `Opcode.allocate_denotes` makes an object of an expression, written out in that way.
-/

namespace TemplateRecovery

open Raw

variable {name : String} {f g : Value → View} {entries : Entries} {shown hash : List (View × View)}
  {c : HelperCall} {params : List View}

/-! ### Arrays that end -/

namespace Store

variable {s t : Store} {v : Value}

/-- Values whose arrays can be opened to the end: everything in them is there, and no array is inside
itself. -/
inductive Grounded (s : Store) : Value → Prop
  | item {v : Value} (hvalid : s.Valid v) (hv : s.array? v = none) : Grounded s v
  | array {v : Value} {items : List Value} (hv : s.array? v = some items)
      (hitems : ∀ w ∈ items, Grounded s w) : Grounded s v

/-- An array holds an object. -/
def Nests (s : Store) (a b : ObjectId) : Prop :=
  ∃ items, s.array? (.object a) = some items ∧ .object b ∈ items

namespace Grounded

theorem acc (h : s.Grounded v) : ∀ id, v = .object id → Acc (fun b a => s.Nests a b) id := by
  induction h with
  | @item v _ hv =>
    rintro id rfl
    refine ⟨id, fun b ⟨items, hitems, _⟩ => ?_⟩
    rw [hv] at hitems
    cases hitems
  | @array v items hv _ ih =>
    rintro id rfl
    refine ⟨id, fun b ⟨others, hothers, hb⟩ => ?_⟩
    rw [hv] at hothers
    cases hothers
    exact ih _ hb b rfl

theorem of_mem {items : List Value} (h : s.Grounded v) (hv : s.array? v = some items) {w : Value}
    (hw : w ∈ items) : s.Grounded w := by
  cases h with
  | item _ hnone => rw [hv] at hnone; cases hnone
  | array hv' hitems =>
    rw [hv] at hv'
    cases hv'
    exact hitems w hw

theorem valid (h : s.Grounded v) : s.Valid v := by
  cases h with
  | item hvalid _ => exact hvalid
  | array hv _ =>
    obtain ⟨id, rfl, ho | ho⟩ := array?_eq_some hv <;>
      exact fun x hx => by cases hx; exact ⟨_, ho⟩

end Grounded

theorem ofValueWithin_item (hv : s.array? v = none) (fuel : Nat) :
    ofValueWithin s fuel v = .atom v := by
  cases fuel with
  | zero => rfl
  | succ fuel =>
    unfold array? at hv
    unfold ofValueWithin
    split <;> first | rfl | (rename_i ho; rw [ho] at hv; cases hv)

theorem ofValue_item (hv : s.array? v = none) : ofValue s v = .atom v :=
  ofValueWithin_item hv _

namespace Grounded

/-- The arrays of a value are opened in the same way inside any arrays that lead to it. -/
theorem ofValueWithin_eq (h : s.Grounded v) {fuel : Nat} {opened : List ObjectId}
    (hopened : Trail s.Nests s opened v) (hfuel : s.objects.size < opened.length + fuel) :
    ofValueWithin s fuel v = ofValue s v := by
  induction h generalizing fuel opened with
  | item _ hv => rw [ofValueWithin_item hv, ofValue_item hv]
  | @array v items hv hitems ih =>
    have hground : s.Grounded v := .array hv hitems
    obtain ⟨id, rfl, ho⟩ := array?_eq_some hv
    obtain ⟨n, rfl, hn⟩ := hopened.exists_fuel id hfuel
    have heq : ∀ w ∈ items, ofValueWithin s n w = ofValueWithin s s.objects.size w := by
      intro w hw
      have hnests : ∀ b, w = .object b → s.Nests id b := fun b hb => ⟨items, hv, hb ▸ hw⟩
      obtain ⟨o, ho⟩ : ∃ o, s.object? id = some o := by rcases ho with ho | ho <;> exact ⟨_, ho⟩
      rw [ih w hw (hopened.open (hopened.not_mem (hground.acc id rfl)) ho hnests) hn,
        ih w hw ((trail_nil _ s _).open (by simp) ho hnests) (by simp)]
    rw [ofValue, ofValueWithin, ofValueWithin]
    rcases ho with ho | ho
    · rw [asObject?_of_object? ho]
      exact congrArg list (List.map_congr_left heq)
    · rw [asObject?_of_object? ho]
      exact congrArg tuple (List.map_congr_left heq)

/-- An array is opened by its items. -/
theorem ofValue_object {id : ObjectId} {o : Object} (h : s.Grounded (.object id))
    (ho : s.object? id = some o) : ofValue s (.object id) = match o with
      | .list items => .list (items.map (ofValue s))
      | .tuple items => .tuple (items.map (ofValue s))
      | _ => .atom (.object id) := by
  have heq : ∀ items, s.array? (.object id) = some items → ∀ w ∈ items,
      ofValueWithin s s.objects.size w = ofValue s w := by
    intro items hv w hw
    have htrail : Trail s.Nests s [id] w :=
      (trail_nil _ s _).open (by simp) ho fun b hb => ⟨items, hv, hb ▸ hw⟩
    exact (h.of_mem hv hw).ofValueWithin_eq htrail (by simp)
  rw [array?, asObject?_of_object? ho] at heq
  rw [ofValue, ofValueWithin, asObject?_of_object? ho]
  cases o with
  | list items => exact congrArg list (List.map_congr_left (heq items rfl))
  | tuple items => exact congrArg tuple (List.map_congr_left (heq items rfl))
  | _ => rfl

theorem ofValue_array (h : s.Grounded v) {items : List Value} (hv : s.array? v = some items) :
    ∃ wrap, (wrap = list ∨ wrap = tuple) ∧ ofValue s v = wrap (items.map (ofValue s)) := by
  obtain ⟨id, rfl, ho | ho⟩ := array?_eq_some hv
  · exact ⟨list, .inl rfl, h.ofValue_object ho⟩
  · exact ⟨tuple, .inr rfl, h.ofValue_object ho⟩

/-- Arrays that end are the same in a later store. -/
theorem keep (h : s.Grounded v) (hst : s.Extends t) : t.Grounded v ∧ ofValue t v = ofValue s v := by
  induction h with
  | item hvalid hv =>
    have hv' := (array?_of_extends hst hvalid).trans hv
    exact ⟨.item (hvalid.mono hst) hv', (ofValue_item hv').trans (ofValue_item hv).symm⟩
  | @array v items hv hitems ih =>
    have hground : s.Grounded v := .array hv hitems
    have hground' : t.Grounded v :=
      .array ((array?_of_extends hst hground.valid).trans hv) fun w hw => (ih w hw).1
    refine ⟨hground', ?_⟩
    have heq : items.map (ofValue t) = items.map (ofValue s) :=
      List.map_congr_left fun w hw => (ih w hw).2
    obtain ⟨id, rfl, ho | ho⟩ := array?_eq_some hv
    · exact (hground'.ofValue_object (hst id _ ho)).trans
        ((congrArg list heq).trans (hground.ofValue_object ho).symm)
    · exact (hground'.ofValue_object (hst id _ ho)).trans
        ((congrArg tuple heq).trans (hground.ofValue_object ho).symm)

end Grounded

end Store

/-! ### Reading arguments in a later store -/

namespace Store.Frozen

variable {s t : Store} {live : List ObjectId} {v : Value}

/-- The arrays of a frozen value can be opened to the end. -/
theorem grounded (h : s.Frozen live v) : s.Grounded v := by
  induction h with
  | @scalar v hv =>
    refine .item (fun id hid => ?_) ?_
    · rw [hid] at hv
      cases hv
    · cases v <;> first | rfl | cases hv
  | @object id o ho _ _ _ _ ih =>
    have hvalid : s.Valid (.object id) := fun x hx => by cases hx; exact ⟨o, ho⟩
    cases hv : s.array? (.object id) with
    | none => exact .item hvalid hv
    | some items =>
      refine .array hv fun w hw => ih w ?_
      rw [array?, asObject?_of_object? ho] at hv
      cases o <;> cases hv <;> exact hw

/-- The arrays of a frozen value are opened as before when only objects change that it does not
show. -/
theorem ofValue_frame (h : s.Frozen live v)
    (hst : ∀ id o, id ∉ live → s.object? id = some o → t.object? id = some o) :
    ofValue t v = ofValue s v := by
  induction h with
  | @scalar w hv =>
    cases w with
    | object id => cases hv
    | _ => rfl
  | @object id o ho hlive howns hbacks hcontents ih =>
    have hfrozen : s.Frozen live (.object id) := .object ho hlive howns hbacks hcontents
    have hfrozen' : t.Frozen live (.object id) :=
      hfrozen.frame fun i p hi hp => ⟨hi, hst i p hi hp⟩
    rw [hfrozen.grounded.ofValue_object ho, hfrozen'.grounded.ofValue_object (hst id o hlive ho)]
    cases o with
    | list items => exact congrArg list (List.map_congr_left ih)
    | tuple items => exact congrArg tuple (List.map_congr_left ih)
    | _ => rfl

theorem text_frame (h : s.Frozen live v)
    (hst : ∀ id o, id ∉ live → s.object? id = some o → t.object? id = some o) :
    t.text v = s.text v := by
  have h' : t.Frozen live v := h.frame fun i p hi hp => ⟨hi, hst i p hi hp⟩
  rw [text, text, h'.tree_eq, h.tree_eq, ← h'.isPart_view, ← h.isPart_view, h.view_frame hst]

theorem of_atom (h : s.Frozen live v) {w : Value} (hw : (ofValue s v).Atom w) :
    s.Frozen live w := by
  have hinside : s.Inside v w := inside_of_atom hw
  clear hw
  induction hinside with
  | here => exact h
  | item hitems hmem _ ih =>
    obtain ⟨id, rfl, ho | ho⟩ := array?_eq_some hitems
    all_goals
      obtain ⟨o, ho', -, -, -, hcontents⟩ := h.object_inv
      rw [ho] at ho'
      cases ho'
      exact ih (hcontents _ hmem)

end Store.Frozen

namespace Opcode

mutual

/-- All values that stand in an expression are of some kind. -/
def Expr.Holds (P : Value → Prop) : Expr → Prop
  | .literal v => P v
  | .path _ => True
  | .concat parts => AllHold P parts
  | .subexpr _ ps h => AllHold P ps ∧ HashHolds P h

/-- All values that stand in expressions are of some kind. -/
def AllHold (P : Value → Prop) : List Expr → Prop
  | [] => True
  | e :: rest => e.Holds P ∧ AllHold P rest

/-- All values that stand in named arguments are of some kind. -/
def HashHolds (P : Value → Prop) : List (String × Expr) → Prop
  | [] => True
  | (_, e) :: rest => e.Holds P ∧ HashHolds P rest

end

variable {P : Value → Prop}

mutual

theorem Expr.Holds.mono {Q : Value → Prop} (hPQ : ∀ v, P v → Q v) :
    ∀ {e}, Expr.Holds P e → Expr.Holds Q e
  | .literal v, h => hPQ v h
  | .path _, h => h
  | .concat parts, h => allHold_mono hPQ parts h
  | .subexpr _ ps h, ⟨hps, hh⟩ => ⟨allHold_mono hPQ ps hps, hashHolds_mono hPQ h hh⟩

theorem allHold_mono {Q : Value → Prop} (hPQ : ∀ v, P v → Q v) : ∀ es, AllHold P es → AllHold Q es
  | [], h => h
  | _ :: rest, ⟨he, hrest⟩ => ⟨he.mono hPQ, allHold_mono hPQ rest hrest⟩

theorem hashHolds_mono {Q : Value → Prop} (hPQ : ∀ v, P v → Q v) :
    ∀ h, HashHolds P h → HashHolds Q h
  | [], h => h
  | (_, _) :: rest, ⟨he, hrest⟩ => ⟨he.mono hPQ, hashHolds_mono hPQ rest hrest⟩

end

theorem HashHolds.set {e : Expr} (he : e.Holds P) :
    ∀ {h : List (String × Expr)}, HashHolds P h → HashHolds P (Assoc.set name e h)
  | [], _ => ⟨he, trivial⟩
  | (k, x) :: rest, ⟨hx, hrest⟩ => by
    simp only [Assoc.set, Assoc.insert]
    split_ifs
    · exact ⟨he, hrest⟩
    · exact ⟨hx, HashHolds.set he hrest⟩

theorem kind_holds (P : Value → Prop) : Kind P (Expr.Holds P) (AllHold P) (HashHolds P) where
  literal _ hv := hv
  path _ := trivial
  concat _ hparts := hparts
  subexpr _ _ _ hps hh := ⟨hps, hh⟩
  nil := trivial
  cons _ _ he hes := ⟨he, hes⟩
  empty := trivial
  set _ _ _ he hh := HashHolds.set he hh

/-! ### Expressions written out -/

mutual

/-- An expression written out, given how values are. -/
def Expr.view (value : Value → View) : Expr → View
  | .literal v => .literal (value v)
  | .path p => .path (.str p)
  | .concat parts => .concat (.list (viewAll value parts))
  | .subexpr name ps h =>
    .subexpr (.str name) (.list (viewAll value ps)) (.map (viewHash value h))

/-- Expressions written out. -/
def viewAll (value : Value → View) : List Expr → List View
  | [] => []
  | e :: rest => e.view value :: viewAll value rest

/-- Named arguments written out. -/
def viewHash (value : Value → View) : List (String × Expr) → List (View × View)
  | [] => []
  | (k, e) :: rest => (.str k, e.view value) :: viewHash value rest

end

mutual

theorem Expr.view_congr : ∀ e : Expr, e.Holds (fun v => f v = g v) → e.view f = e.view g
  | .literal _, h => congrArg View.literal h
  | .path _, _ => rfl
  | .concat parts, h => congrArg (fun vs => View.concat (.list vs)) (viewAll_congr parts h)
  | .subexpr name ps h, ⟨hps, hh⟩ => congrArg₂
      (fun vs es => View.subexpr (.str name) (.list vs) (.map es)) (viewAll_congr ps hps)
      (viewHash_congr h hh)

theorem viewAll_congr :
    ∀ es : List Expr, AllHold (fun v => f v = g v) es → viewAll f es = viewAll g es
  | [], _ => rfl
  | e :: rest, ⟨he, hrest⟩ => congrArg₂ List.cons (e.view_congr he) (viewAll_congr rest hrest)

theorem viewHash_congr :
    ∀ h : List (String × Expr), HashHolds (fun v => f v = g v) h → viewHash f h = viewHash g h
  | [], _ => rfl
  | (k, e) :: rest, ⟨he, hrest⟩ => congrArg₂ List.cons
      (congrArg (Prod.mk (View.str k)) (e.view_congr he)) (viewHash_congr rest hrest)

end

/-- A store in which the objects that change are there. -/
def HasLive (live : List ObjectId) (s : Store) : Prop := ∀ id ∈ live, ∃ o, s.object? id = some o

variable {live : List ObjectId} {s t : Store}

theorem HasLive.mono (h : HasLive live s) (hst : s.Extends t) : HasLive live t := by
  intro id hid
  obtain ⟨o, ho⟩ := h id hid
  exact ⟨o, hst id o ho⟩

theorem HasLive.next_not_mem (h : HasLive live s) : s.next ∉ live := by
  intro hnext
  obtain ⟨o, ho⟩ := h _ hnext
  exact Store.ne_next_of_object? ho rfl

/-- A new object without parents is frozen and written out by its parts. -/
theorem new_denotes {o : Object} {shown : View} (hs : HasLive live s) (howns : o.Owns)
    (hbacks : o.backs = []) (hcontents : ∀ w ∈ s.contents o, s.Frozen live w)
    (hshown : s.viewObject (fun _ => s.view) 0 o = shown) :
    (s.push o).Denotes live (.object s.next) shown := by
  obtain ⟨hfrozen, hview⟩ := Store.Frozen.push howns hs.next_not_mem hbacks hcontents
  exact ⟨hfrozen, hview.trans hshown⟩

theorem frozen_str (s : Store) (live : List ObjectId) (text : String) : s.Frozen live (.str text) :=
  .scalar rfl

/-- Entries whose keys are texts, as they are written out. -/
def ShownEntries (s : Store) (live : List ObjectId) (entries : Entries) (shown : List (View × View)) :
    Prop :=
  List.Forall₂ (fun e w => (∃ k, e.1 = .str k ∧ w.1 = .str k) ∧ s.Denotes live e.2 w.2) entries shown

theorem ShownEntries.keep (h : ShownEntries s live entries shown) (hst : s.Extends t) :
    ShownEntries t live entries shown :=
  h.imp fun _ _ he => ⟨he.1, he.2.keep hst⟩

theorem map_view_of_denotes {vs : List Value} {shown : List View}
    (h : List.Forall₂ (s.Denotes live) vs shown) : vs.map s.view = shown := by
  induction h with
  | nil => rfl
  | cons hv _ ih => rw [List.map_cons, hv.2, ih]

theorem frozen_of_denotes {vs : List Value} {shown : List View}
    (h : List.Forall₂ (s.Denotes live) vs shown) : ∀ v ∈ vs, s.Frozen live v := by
  induction h with
  | nil => simp
  | cons hv _ ih => exact List.forall_mem_cons.2 ⟨hv.1, ih⟩

theorem ShownEntries.map_view (h : ShownEntries s live entries shown) :
    entries.map (fun (k, v) => (s.view k, s.view v)) = shown := by
  induction h with
  | nil => rfl
  | @cons e w _ _ he _ ih =>
    obtain ⟨key, v⟩ := e
    obtain ⟨shownKey, shown⟩ := w
    obtain ⟨⟨k, rfl, rfl⟩, hv⟩ := he
    rw [List.map_cons, ih]
    exact congrArg₂ List.cons (congrArg (Prod.mk (View.str k)) hv.2) rfl

theorem ShownEntries.frozen (h : ShownEntries s live entries shown) :
    ∀ v ∈ (Held.own entries).paired, s.Frozen live v := by
  induction h with
  | nil => simp [Held.paired]
  | @cons e w _ _ he _ ih =>
    obtain ⟨⟨k, hk, -⟩, hv⟩ := he
    intro v hmem
    simp only [Held.paired, List.flatMap_cons, List.mem_append, List.mem_cons, List.not_mem_nil,
      or_false] at hmem ih
    rcases hmem with (rfl | rfl) | hmem
    · rw [hk]
      exact frozen_str s live k
    · exact hv.1
    · exact ih v hmem

/-- A helper with its arguments is frozen in a store and written out in some way. -/
def ShownCall (s : Store) (live : List ObjectId) (c : HelperCall) (name : String)
    (params : List View) (hash : List (View × View)) : Prop :=
  ∃ vs entries, c = ⟨.str name, .own vs, .own entries⟩ ∧ List.Forall₂ (s.Denotes live) vs params ∧
    ShownEntries s live entries hash

section Calls

variable (h : ShownCall s live c name params hash)

include h

theorem ShownCall.keep (hst : s.Extends t) : ShownCall t live c name params hash := by
  obtain ⟨vs, entries, hc, hvs, hentries⟩ := h
  exact ⟨vs, entries, hc, hvs.imp fun _ _ hv => hv.keep hst, hentries.keep hst⟩

theorem ShownCall.owns : c.Owns := by
  obtain ⟨vs, entries, rfl, -⟩ := h
  exact ⟨trivial, trivial⟩

theorem ShownCall.frozen : ∀ v ∈ c.contents, s.Frozen live v := by
  obtain ⟨vs, entries, rfl, hvs, hentries⟩ := h
  intro v hv
  rcases List.mem_cons.1 hv with rfl | hv
  · exact frozen_str s live name
  · rcases List.mem_append.1 hv with hv | hv
    · exact frozen_of_denotes hvs v hv
    · exact hentries.frozen v hv

/-- The three parts of a call as they are written out. -/
theorem ShownCall.views (depth : Nat) : s.view c.name = .str name ∧
      Store.viewObject.items (fun _ => s.view) depth c.params = .list params ∧
      Store.viewObject.entries (fun _ => s.view) depth c.hash = .map hash := by
  obtain ⟨vs, entries, rfl, hvs, hentries⟩ := h
  exact ⟨rfl, congrArg View.list (map_view_of_denotes hvs), congrArg View.map hentries.map_view⟩

end Calls

mutual

/-- **An expression is made an object** that is written out as the expression is. -/
theorem allocate_denotes : ∀ (e : Expr) (s : Store), HasLive live s → e.Holds (s.Frozen live) →
    ∃ v t, allocate e s = .ok v t ∧ s.Extends t ∧ t.Denotes live v (e.view s.view)
  | .literal v, s, hs, hv => by
    refine ⟨_, _, rfl, s.extends_push _, new_denotes hs trivial rfl ?_ rfl⟩
    intro w hw
    rw [List.mem_singleton.1 hw]
    exact hv
  | .path p, s, hs, _ => by
    refine ⟨_, _, rfl, s.extends_push _, new_denotes hs trivial rfl ?_ rfl⟩
    intro w hw
    rw [List.mem_singleton.1 hw]
    exact frozen_str s live p
  | .concat parts, s, hs, hparts => by
    obtain ⟨vs, t, hall, hst, hvs⟩ := allocateAll_denotes parts s hs hparts
    refine ⟨_, _, Act.bind_of_ok hall, hst.trans (t.extends_push _),
      new_denotes (hs.mono hst) trivial rfl (frozen_of_denotes hvs) ?_⟩
    exact congrArg (fun vs => View.concat (.list vs)) (map_view_of_denotes hvs)
  | .subexpr name ps h, s, hs, ⟨hps, hh⟩ => by
    obtain ⟨vs, t, hall, hst, hvs⟩ := allocateAll_denotes ps s hs hps
    have hh' : HashHolds (fun v => t.Frozen live v ∧ t.view v = s.view v) h :=
      hashHolds_mono (fun v hv => ⟨hv.keep hst, hv.view_keep hst⟩) h hh
    obtain ⟨entries, u, hhash, htu, hentries⟩ := allocateHash_denotes h t (hs.mono hst)
      (hashHolds_mono (fun _ hv => hv.1) h hh')
    rw [viewHash_congr h (hashHolds_mono (fun _ hv => hv.2) h hh')] at hentries
    have hcall : ShownCall u live ⟨.str name, .own vs, .own entries⟩ name (viewAll s.view ps)
        (viewHash s.view h) :=
      ⟨vs, entries, rfl, hvs.imp fun _ _ hv => hv.keep htu, hentries⟩
    obtain ⟨hname, hparams, hhash'⟩ := hcall.views 0
    refine ⟨_, _, (Act.bind_of_ok hall).trans (Act.bind_of_ok hhash),
      (hst.trans htu).trans (u.extends_push _),
      new_denotes ((hs.mono hst).mono htu) hcall.owns rfl hcall.frozen ?_⟩
    simp only [Store.viewObject, hname, hparams, hhash', Expr.view]

theorem allocateAll_denotes : ∀ (es : List Expr) (s : Store), HasLive live s →
    AllHold (s.Frozen live) es → ∃ vs t, allocateAll es s = .ok vs t ∧ s.Extends t ∧
      List.Forall₂ (t.Denotes live) vs (viewAll s.view es)
  | [], s, _, _ => ⟨[], s, rfl, s.extends_refl, .nil⟩
  | e :: rest, s, hs, ⟨he, hrest⟩ => by
    obtain ⟨v, t, hone, hst, hv⟩ := allocate_denotes e s hs he
    have hrest' : AllHold (fun v => t.Frozen live v ∧ t.view v = s.view v) rest :=
      allHold_mono (fun v hv => ⟨hv.keep hst, hv.view_keep hst⟩) rest hrest
    obtain ⟨vs, u, hall, htu, hvs⟩ := allocateAll_denotes rest t (hs.mono hst)
      (allHold_mono (fun _ hv => hv.1) rest hrest')
    rw [viewAll_congr rest (allHold_mono (fun _ hv => hv.2) rest hrest')] at hvs
    exact ⟨v :: vs, u, (Act.bind_of_ok hone).trans (Act.bind_of_ok hall), hst.trans htu,
      .cons (hv.keep htu) hvs⟩

theorem allocateHash_denotes : ∀ (h : List (String × Expr)) (s : Store), HasLive live s →
    HashHolds (s.Frozen live) h → ∃ entries t, allocateHash h s = .ok entries t ∧ s.Extends t ∧
      ShownEntries t live entries (viewHash s.view h)
  | [], s, _, _ => ⟨[], s, rfl, s.extends_refl, .nil⟩
  | (k, e) :: rest, s, hs, ⟨he, hrest⟩ => by
    obtain ⟨v, t, hone, hst, hv⟩ := allocate_denotes e s hs he
    have hrest' : HashHolds (fun v => t.Frozen live v ∧ t.view v = s.view v) rest :=
      hashHolds_mono (fun v hv => ⟨hv.keep hst, hv.view_keep hst⟩) rest hrest
    obtain ⟨entries, u, hhash, htu, hentries⟩ := allocateHash_denotes rest t (hs.mono hst)
      (hashHolds_mono (fun _ hv => hv.1) rest hrest')
    rw [viewHash_congr rest (hashHolds_mono (fun _ hv => hv.2) rest hrest')] at hentries
    exact ⟨(.str k, v) :: entries, u, (Act.bind_of_ok hone).trans (Act.bind_of_ok hhash),
      hst.trans htu, .cons ⟨⟨k, rfl, rfl⟩, hv.keep htu⟩ hentries⟩

end

end Opcode

end TemplateRecovery
