import TemplateRecovery.Proofs.Grammar

/-!
# Expressions and the arrays that denote them

Every expression has an array that denotes it, in one form: all groups are written, names and values of
named arguments stand in turn. Reading that array gives the expression back. Reading any other array
gives an expression whose own array is read in the same way, so that the written form is a normal form.

* `Expr.Distinct` are expressions in which no name of an argument is given twice.
* `Opcode.param_encode` says that encoding is undone by reading.
* `Raw.put` makes an argument a value of the store again.
* `paramOf_encode` is the round trip of expressions in a store, in both directions.
-/

namespace TemplateRecovery

variable {s : Store} {v x : Value}

/-! ### Names in an association -/

namespace Assoc

variable {ν : Type} {name : String} {v : ν}

theorem set_of_not_mem : ∀ {entries : List (String × ν)}, name ∉ entries.map Prod.fst →
    set name v entries = entries ++ [(name, v)]
  | [], _ => rfl
  | (k, x) :: rest, h => by
    rw [List.map_cons, List.mem_cons, not_or] at h
    simp only [set, insert]
    rw [if_neg (by simpa using Ne.symm h.1)]
    exact congrArg (List.cons (k, x)) (set_of_not_mem h.2)

theorem nodup_keys_set {entries : List (String × ν)} (h : (entries.map Prod.fst).Nodup) :
    ((set name v entries).map Prod.fst).Nodup := by
  rw [set, keys_insert]
  split_ifs with hname
  · exact h
  · refine List.nodup_append.2 ⟨h, List.nodup_singleton name, fun k hk l hl => ?_⟩
    rw [List.mem_singleton.1 hl]
    exact fun hkname => hname (hkname ▸ hk)

end Assoc

/-! ### Arguments that are opened -/

namespace Raw

mutual

def put : Raw → Act Value
  | .atom v => return v
  | .list items => do
    let vs ← putAll items
    Act.new (.list vs)
  | .tuple items => do
    let vs ← putAll items
    Act.new (.tuple vs)

def putAll : List Raw → Act (List Value)
  | [] => return []
  | r :: rest => do
    let v ← put r
    let vs ← putAll rest
    return v :: vs

end

/-- A value of the store that is opened as an argument is. -/
def IsAt (s : Store) (r : Raw) (v : Value) : Prop := s.Grounded v ∧ Raw.ofValue s v = r

theorem IsAt.mono {t : Store} {r : Raw} (h : r.IsAt s v) (hst : s.Extends t) : r.IsAt t v := by
  obtain ⟨hground, heq⟩ := h.1.keep hst
  exact ⟨hground, heq.trans h.2⟩

theorem isAt_items {items : List Raw} {vs : List Value}
    (h : List.Forall₂ (fun r v => r.IsAt s v) items vs) :
    (∀ v ∈ vs, s.Grounded v) ∧ vs.map (Raw.ofValue s) = items := by
  induction h with
  | nil => simp
  | cons hv _ ih => exact ⟨List.forall_mem_cons.2 ⟨hv.1, ih.1⟩, congrArg₂ List.cons hv.2 ih.2⟩

/-- Arguments that are opened to the end: what they hold is there and no array. -/
def Closed (s : Store) (r : Raw) : Prop := ∀ v, r.Atom v → s.Valid v ∧ s.array? v = none

theorem Closed.mono {t : Store} {r : Raw} (h : r.Closed s) (hst : s.Extends t) : r.Closed t := by
  intro v hv
  obtain ⟨hvalid, harray⟩ := h v hv
  exact ⟨hvalid.mono hst, (Store.array?_of_extends hst hvalid).trans harray⟩

mutual

/-- **An argument is put into the store** as a value that is opened as the argument. -/
theorem put_isAt : ∀ (r : Raw) (s : Store), r.Closed s →
    ∃ v t, r.put s = .ok v t ∧ s.Extends t ∧ r.IsAt t v
  | .atom v, s, h => by
    obtain ⟨hvalid, harray⟩ := h v (.atom v)
    exact ⟨v, s, rfl, s.extends_refl, .item hvalid harray, Store.ofValue_item harray⟩
  | .list items, s, h => by
    obtain ⟨vs, t, hall, hst, hvs⟩ := putAll_isAt items s fun r hr v hv => h v (.list hr hv)
    obtain ⟨hground, hitems⟩ := isAt_items (hvs.imp fun _ _ hv => hv.mono (t.extends_push (.list vs)))
    have hv : (t.push (.list vs)).Grounded (.object t.next) :=
      .array (by rw [Store.array?, Store.asObject?_of_object? (t.object?_push_next _)]) hground
    refine ⟨_, _, Act.bind_of_ok hall, hst.trans (t.extends_push _), hv, ?_⟩
    exact (hv.ofValue_object (t.object?_push_next _)).trans (congrArg Raw.list hitems)
  | .tuple items, s, h => by
    obtain ⟨vs, t, hall, hst, hvs⟩ := putAll_isAt items s fun r hr v hv => h v (.tuple hr hv)
    obtain ⟨hground, hitems⟩ := isAt_items (hvs.imp fun _ _ hv => hv.mono (t.extends_push (.tuple vs)))
    have hv : (t.push (.tuple vs)).Grounded (.object t.next) :=
      .array (by rw [Store.array?, Store.asObject?_of_object? (t.object?_push_next _)]) hground
    refine ⟨_, _, Act.bind_of_ok hall, hst.trans (t.extends_push _), hv, ?_⟩
    exact (hv.ofValue_object (t.object?_push_next _)).trans (congrArg Raw.tuple hitems)

theorem putAll_isAt : ∀ (items : List Raw) (s : Store), (∀ r ∈ items, r.Closed s) →
    ∃ vs t, putAll items s = .ok vs t ∧ s.Extends t ∧ List.Forall₂ (fun r v => r.IsAt t v) items vs
  | [], s, _ => ⟨[], s, rfl, s.extends_refl, .nil⟩
  | r :: rest, s, h => by
    obtain ⟨v, t, hone, hst, hv⟩ := put_isAt r s (h r List.mem_cons_self)
    obtain ⟨vs, u, hall, htu, hvs⟩ := putAll_isAt rest t fun r hr =>
      (h r (List.mem_cons_of_mem _ hr)).mono hst
    exact ⟨v :: vs, u, (Act.bind_of_ok hone).trans (Act.bind_of_ok hall), hst.trans htu,
      .cons (hv.mono htu) hvs⟩

end

end Raw

/-! ### Encoding is undone by reading -/

namespace Opcode

mutual

/-- No name of an argument is given twice. -/
def Expr.Distinct : Expr → Prop
  | .literal _ => True
  | .path _ => True
  | .concat parts => AllDistinct parts
  | .subexpr _ ps h => AllDistinct ps ∧ (h.map Prod.fst).Nodup ∧ HashDistinct h

/-- In no expression a name is given twice. -/
def AllDistinct : List Expr → Prop
  | [] => True
  | e :: rest => e.Distinct ∧ AllDistinct rest

/-- In no named argument a name is given twice. -/
def HashDistinct : List (String × Expr) → Prop
  | [] => True
  | (_, e) :: rest => e.Distinct ∧ HashDistinct rest

end

variable {d : Display}

theorem length_encodeHash (h : List (String × Expr)) : (encodeHash h).length = 2 * h.length := by
  induction h with
  | nil => rfl
  | cons e rest ih =>
    rw [encodeHash, List.length_cons, List.length_cons, ih, List.length_cons]
    omega

mutual

/-- **Encoding is undone by reading**, for every way of showing values that shows texts as they are. -/
theorem param_encode (hd : ∀ k, d.text (.str k) = .ok k) :
    ∀ e : Expr, e.Distinct → param d (encode e) = .ok e
  | .literal _, _ => rfl
  | .path _, _ => rfl
  | .concat parts, h => expression_eq_ok_iff.2 (.concat (paramItems_encode hd parts h))
  | .subexpr _ ps h, ⟨hps, hnames, hh⟩ => by
    refine expression_eq_ok_iff.2 (.subexprHash (paramItems_encode hd ps hps) ?_)
    rw [hash, if_neg (by rw [length_encodeHash]; omega)]
    exact hashItems_encode hd h [] hnames hh

theorem paramItems_encode (hd : ∀ k, d.text (.str k) = .ok k) :
    ∀ es : List Expr, AllDistinct es → paramItems d (encodeAll es) = .ok es
  | [], _ => rfl
  | e :: rest, ⟨he, hrest⟩ => by
    rw [encodeAll, paramItems, param_encode hd e he, paramItems_encode hd rest hrest]
    rfl

theorem hashItems_encode (hd : ∀ k, d.text (.str k) = .ok k) :
    ∀ (h done : List (String × Expr)), ((done ++ h).map Prod.fst).Nodup → HashDistinct h →
      hashItems d (encodeHash h) done = .ok (done ++ h)
  | [], done, _, _ => congrArg Except.ok (List.append_nil done).symm
  | (k, e) :: rest, done, hnames, ⟨he, hrest⟩ => by
    have hk : k ∉ done.map Prod.fst := by
      rw [List.map_append, List.nodup_append] at hnames
      exact fun hin => hnames.2.2 k hin k (by simp) rfl
    rw [encodeHash, hashItems, param_encode hd e he]
    show (do let name ← d.text (.str k); hashItems d (encodeHash rest) (Assoc.set name e done)) = _
    rw [hd]
    show hashItems d (encodeHash rest) (Assoc.set k e done) = _
    rw [Assoc.set_of_not_mem hk,
      hashItems_encode hd rest (done ++ [(k, e)]) (by simpa using hnames) hrest]
    simp

end

/-! ### What is read has distinct names -/

theorem hashDistinct_set {name : String} {e : Expr} (he : e.Distinct) :
    ∀ {h : List (String × Expr)}, HashDistinct h → HashDistinct (Assoc.set name e h)
  | [], _ => ⟨he, trivial⟩
  | (_, _) :: _, ⟨hx, hrest⟩ => by
    simp only [Assoc.set, Assoc.insert]
    split_ifs
    · exact ⟨he, hrest⟩
    · exact ⟨hx, hashDistinct_set he hrest⟩

/-- A name that is given again takes a new value in its first place. -/
theorem kind_distinct : Kind (fun _ => True) Expr.Distinct AllDistinct
    fun h => (h.map Prod.fst).Nodup ∧ HashDistinct h where
  literal _ _ := trivial
  path _ := trivial
  concat _ hparts := hparts
  subexpr _ _ _ hps hh := ⟨hps, hh⟩
  nil := trivial
  cons _ _ he hes := ⟨he, hes⟩
  empty := ⟨List.nodup_nil, trivial⟩
  set _ _ _ he hh := ⟨Assoc.nodup_keys_set hh.1, hashDistinct_set he hh.2⟩

/-! ### The round trip in a store -/

variable {s t : Store}

theorem closed_str (s : Store) (text : String) : (Raw.atom (.str text)).Closed s := by
  intro v hv
  cases hv
  exact ⟨by simp [Store.Valid], rfl⟩

theorem closed_list {items : List Raw} (h : ∀ r ∈ items, r.Closed s) : (Raw.list items).Closed s := by
  intro v hv
  cases hv with
  | list hr hv => exact h _ hr v hv

mutual

/-- An encoding can be put into the store if the literals can. -/
theorem closed_encode : ∀ e : Expr, e.Holds (fun v => s.Valid v ∧ s.array? v = none) →
    (encode e).Closed s
  | .literal v, h => by
    intro w hw
    cases hw
    exact h
  | .path p, _ => closed_list (by simpa using ⟨closed_str s "get", closed_str s p⟩)
  | .concat parts, h =>
    closed_list (by simpa using ⟨closed_str s "concat", closed_list (closed_encodeAll parts h)⟩)
  | .subexpr name ps h, ⟨hps, hh⟩ =>
    closed_list (by simpa using ⟨closed_str s "subexpr", closed_str s name,
      closed_list (closed_encodeAll ps hps), closed_list (closed_encodeHash h hh)⟩)

theorem closed_encodeAll : ∀ es : List Expr, AllHold (fun v => s.Valid v ∧ s.array? v = none) es →
    ∀ r ∈ encodeAll es, r.Closed s
  | [], _ => by simp [encodeAll]
  | e :: rest, ⟨he, hrest⟩ =>
    List.forall_mem_cons.2 ⟨closed_encode e he, closed_encodeAll rest hrest⟩

theorem closed_encodeHash : ∀ h : List (String × Expr),
    HashHolds (fun v => s.Valid v ∧ s.array? v = none) h → ∀ r ∈ encodeHash h, r.Closed s
  | [], _ => by simp [encodeHash]
  | (k, e) :: rest, ⟨he, hrest⟩ => List.forall_mem_cons.2 ⟨closed_str s k,
      List.forall_mem_cons.2 ⟨closed_encode e he, closed_encodeHash rest hrest⟩⟩

end

def Expr.kind : Expr → ExprKind
  | .literal _ => .literal
  | .path _ => .path
  | .concat _ => .concat
  | .subexpr _ _ _ => .subexpr

theorem Expr.StandsAt.object {e : Expr} (h : e.StandsAt s x) :
    ∃ id o, x = .object id ∧ s.object? id = some (.expression o) ∧ o.kind = e.kind := by
  cases e with
  | literal v =>
    obtain ⟨id, hx, ho⟩ := h
    exact ⟨id, _, hx, ho, rfl⟩
  | path p =>
    obtain ⟨id, hx, ho⟩ := h
    exact ⟨id, _, hx, ho, rfl⟩
  | concat parts =>
    obtain ⟨id, _, _, hx, ho, -⟩ := h
    exact ⟨id, _, hx, ho, rfl⟩
  | subexpr name ps hash =>
    obtain ⟨id, _, _, _, _, hx, ho, -⟩ := h
    exact ⟨id, _, hx, ho, rfl⟩

theorem Expr.StandsAt.kind_eq {e e' : Expr} (h : e.StandsAt s x) (h' : e'.StandsAt s x) :
    e.kind = e'.kind := by
  obtain ⟨id, o, rfl, ho, hkind⟩ := h.object
  obtain ⟨_, o', hid, ho', hkind'⟩ := h'.object
  cases hid
  rw [ho] at ho'
  cases ho'
  exact hkind.symm.trans hkind'

mutual

/-- An object is one expression only. -/
theorem Expr.StandsAt.unique : ∀ {e e' : Expr} {x : Value}, e.StandsAt s x → e'.StandsAt s x → e = e'
  | .literal _, e', _, h, h' => by
    cases e' with
    | literal v =>
      obtain ⟨id, rfl, ho⟩ := h
      obtain ⟨_, hid, ho'⟩ := h'
      cases hid
      rw [ho] at ho'
      cases ho'
      rfl
    | _ => cases h.kind_eq h'
  | .path _, e', _, h, h' => by
    cases e' with
    | path p =>
      obtain ⟨id, rfl, ho⟩ := h
      obtain ⟨_, hid, ho'⟩ := h'
      cases hid
      rw [ho] at ho'
      cases ho'
      rfl
    | _ => cases h.kind_eq h'
  | .concat parts, e', _, h, h' => by
    cases e' with
    | concat parts' =>
      obtain ⟨id, held, vs, rfl, ho, hvs, hparts⟩ := h
      obtain ⟨_, _, vs', hid, ho', hvs', hparts'⟩ := h'
      cases hid
      rw [ho] at ho'
      cases ho'
      rw [hvs] at hvs'
      cases hvs'
      rw [allStandAt_unique hparts hparts']
    | _ => cases h.kind_eq h'
  | .subexpr _ ps hash, e', _, h, h' => by
    cases e' with
    | subexpr name' ps' hash' =>
      obtain ⟨id, held, vs, heldHash, entries, rfl, ho, hvs, hentries, hps, hh⟩ := h
      obtain ⟨_, _, vs', _, entries', hid, ho', hvs', hentries', hps', hh'⟩ := h'
      cases hid
      rw [ho] at ho'
      cases ho'
      rw [hvs] at hvs'
      cases hvs'
      rw [hentries] at hentries'
      cases hentries'
      rw [allStandAt_unique hps hps', hashStandsAt_unique hh hh']
    | _ => cases h.kind_eq h'

theorem allStandAt_unique : ∀ {es es' : List Expr} {vs : List Value}, AllStandAt s es vs →
    AllStandAt s es' vs → es = es'
  | [], [], _, _, _ => rfl
  | _ :: _, _ :: _, _ :: _, ⟨he, hes⟩, ⟨he', hes'⟩ =>
    congrArg₂ List.cons (he.unique he') (allStandAt_unique hes hes')
  | [], _ :: _, [], _, h => h.elim
  | _ :: _, [], _ :: _, _, h => h.elim

theorem hashStandsAt_unique : ∀ {h h' : List (String × Expr)} {entries : Entries},
    HashStandsAt s h entries → HashStandsAt s h' entries → h = h'
  | [], [], _, _, _ => rfl
  | (_, _) :: _, (_, _) :: _, (_, _) :: _, ⟨hk, he, hrest⟩, ⟨hk', he', hrest'⟩ => by
    cases hk
    cases hk'
    rw [he.unique he', hashStandsAt_unique hrest hrest']
  | [], (_, _) :: _, [], _, h => h.elim
  | (_, _) :: _, [], (_, _) :: _, _, h => h.elim

end

/-- A value is read as an expression, and an object is made of it. -/
theorem paramOf_of_param {e : Expr} (h : param s.display (Raw.ofValue s v) = .ok e) :
    ∃ x t, paramOf v s = .ok x t ∧ s.Extends t ∧ e.StandsAt t x := by
  obtain ⟨x, t, hok, hst, hx⟩ := allocate_standsAt e s
  refine ⟨x, t, ?_, hst, hx⟩
  unfold paramOf
  rw [Act.bind_store, h]
  exact hok

/-- What is read is the object of an expression that the value denotes. -/
theorem param_of_paramOf (h : paramOf v s = .ok x t) :
    ∃ e, param s.display (Raw.ofValue s v) = .ok e ∧ s.Extends t ∧ e.StandsAt t x := by
  cases hread : param s.display (Raw.ofValue s v) with
  | ok e =>
    obtain ⟨y, u, hok, hsu, hy⟩ := paramOf_of_param hread
    rw [h] at hok
    cases hok
    exact ⟨e, rfl, hsu, hy⟩
  | error fault =>
    unfold paramOf at h
    rw [Act.bind_store, hread] at h
    cases h

/-- The array of the expression that an object is can be made, and it is read as an object that is the
same expression. -/
def Expr.RoundTrips (s : Store) (e : Expr) (x : Value) : Prop :=
  e.StandsAt s x ∧ ∃ v t, (encode e).put s = .ok v t ∧ s.Extends t ∧ (encode e).IsAt t v ∧
    ∃ y u, paramOf v t = .ok y u ∧ t.Extends u ∧ e.StandsAt u y ∧ e.StandsAt u x

theorem roundTrips {e : Expr} (hx : e.StandsAt s x) (hdistinct : e.Distinct)
    (hholds : e.Holds fun w => s.Valid w ∧ s.array? w = none) : e.RoundTrips s x := by
  obtain ⟨v, t, hput, hst, hv⟩ := Raw.put_isAt (encode e) s (closed_encode e hholds)
  have hread : param t.display (Raw.ofValue t v) = .ok e := by
    rw [hv.2]
    exact param_encode (fun _ => rfl) e hdistinct
  obtain ⟨y, u, hok, htu, hy⟩ := paramOf_of_param hread
  exact ⟨hx, v, t, hput, hst, hv, y, u, hok, htu, hy, hx.mono (hst.trans htu)⟩

/-- **Reading undoes encoding.** An object that is an expression with distinct names and without
arrays among its literals is encoded by an array that is read as the same expression. Whatever else is
read gives an object that is one expression, and its encoding is read as that expression again. -/
theorem paramOf_encode :
    (∀ (s : Store) (x : Value) (e : Expr), e.StandsAt s x → e.Distinct →
      (e.Holds fun w => s.Valid w ∧ s.array? w = none) → e.RoundTrips s x) ∧
    ∀ (s t : Store) (r x : Value), s.Grounded r → paramOf r s = .ok x t →
      ∃ e : Expr, (∀ e', e'.StandsAt t x → e' = e) ∧ e.RoundTrips t x := by
  refine ⟨fun s x e hx hdistinct hholds => roundTrips hx hdistinct hholds,
    fun s t r x hground hok => ?_⟩
  obtain ⟨e, hread, hst, hx⟩ := param_of_paramOf hok
  have hdistinct : e.Distinct := (readAlike (s.display.agreeOn_refl _) kind_distinct
    fun _ _ => trivial).param.of_ok hread
  have hholds : e.Holds fun w => s.Valid w ∧ s.array? w = none :=
    (readAlike (s.display.agreeOn_refl _) (kind_holds _) fun w hw =>
      atom_of_grounded hground hw).param.of_ok hread
  refine ⟨e, fun e' he' => he'.unique hx, roundTrips hx hdistinct ?_⟩
  exact hholds.mono fun w hw => ⟨hw.1.mono hst, (Store.array?_of_extends hst hw.1).trans hw.2⟩

/-- A helper without parameters in which a name is given twice. -/
def repeatedName : Store where
  objects := #[
    .list [.str "subexpr", .str "format", .null, .object ⟨1⟩],
    .list [.str "width", .int 1, .str "width", .object ⟨2⟩],
    .tuple [.str "get", .str "page.width"]]

/-- The later value is kept, and the expression is its own reading afterwards; so is a concatenation
that was made elsewhere. -/
theorem paramOf_encode_repeatedName :
    (∃ x t, paramOf (.object ⟨0⟩) repeatedName = .ok x t ∧
      (Expr.subexpr "format" [] [("width", .path "page.width")]).RoundTrips t x) ∧
    ∃ x t, (Expr.concat [.path "page.width", .literal (.int 1)]).RoundTrips t x := by
  constructor
  · have hplain : repeatedName.Plain (.object ⟨0⟩) := by
      refine .array rfl ?_
      simp only [List.forall_mem_cons, List.not_mem_nil, false_imp_iff, implies_true, and_true]
      refine ⟨.str _, .str _, .null, .array rfl ?_⟩
      simp only [List.forall_mem_cons, List.not_mem_nil, false_imp_iff, implies_true, and_true]
      exact ⟨.str _, .int 1 trivial, .str _, .array rfl (by simpa using ⟨.str "get", .str "page.width"⟩)⟩
    have hread : param repeatedName.display (Raw.ofValue repeatedName (.object ⟨0⟩)) =
        .ok (.subexpr "format" [] [("width", .path "page.width")]) := by
      refine expression_eq_ok_iff.2 (.subexprHash rfl ?_)
      have hpath := expression_eq_ok_iff.2 (Spells.get (d := repeatedName.display) "page.width")
      have hname : repeatedName.display.rawText (.atom (.str "width")) = .ok "width" := rfl
      show hashItems repeatedName.display [.atom (.str "width"), .atom (.int 1),
        .atom (.str "width"), .tuple [.atom (.str "get"), .atom (.str "page.width")]] [] = _
      simp only [hashItems, hname, param, hpath, Except.bind, bind, Assoc.set, Assoc.insert,
        beq_self_eq_true, if_true]
    obtain ⟨x, t, hok, -, hx⟩ := paramOf_of_param hread
    obtain ⟨e, hunique, htrip⟩ := paramOf_encode.2 _ _ _ _ hplain.grounded hok
    rw [← hunique _ hx] at htrip
    exact ⟨x, t, hok, htrip⟩
  · obtain ⟨x, t, -, -, hx⟩ :=
      allocate_standsAt (.concat [.path "page.width", .literal (.int 1)]) repeatedName
    exact ⟨x, t, paramOf_encode.1 t x _ hx ⟨trivial, trivial, trivial⟩
      ⟨trivial, ⟨by simp [Store.Valid], rfl⟩, trivial⟩⟩

end Opcode

end TemplateRecovery
