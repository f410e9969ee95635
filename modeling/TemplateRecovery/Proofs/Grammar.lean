import TemplateRecovery.Proofs.Reading

/-!
# The grammar of expression arrays

An array denotes an expression exactly if it is in a small grammar. A look-up has a path, a
concatenation has parts, a helper has a name and may have parameters and named arguments. Wherever an
argument stands, an array is an expression again, and only what is no array is a literal.

* `Store.Plain` are plain data, and `Store.Spelled` those without numbers that are too long to be written.
* `Opcode.IsExpression`, `Opcode.IsParams` and `Opcode.IsHash` are the grammar.
* `Opcode.Spells` says which expression a tagged array spells, given how its arguments are read.
* `Opcode.Decides` says that reading succeeds exactly if something holds, but for such numbers.
* `expressionOf_exact` says that plain arrays are read exactly if they are in the grammar.
-/

namespace TemplateRecovery

open Store Act

variable {items : List Value}

/-! ### Plain data -/

namespace Store

variable {s t : Store} {v : Value}

/-- Plain data with numbers of some kind: null, truth values, numbers and texts, and arrays and mappings
of plain data. -/
inductive PlainOf (s : Store) (number : Int → Prop) : Value → Prop
  | null : PlainOf s number .null
  | bool (b : Bool) : PlainOf s number (.bool b)
  | int (n : Int) (hn : number n) : PlainOf s number (.int n)
  | float (x : Binary64) : PlainOf s number (.float x)
  | nan (tag : Nat) : PlainOf s number (.nan tag)
  | str (text : String) : PlainOf s number (.str text)
  | array {v : Value} {items : List Value} (hv : s.array? v = some items)
      (hitems : ∀ w ∈ items, PlainOf s number w) : PlainOf s number v
  | map {v : Value} {entries : Entries} (hv : s.entries? v = some entries)
      (hkeys : ∀ e ∈ entries, PlainOf s number e.1) (hvalues : ∀ e ∈ entries, PlainOf s number e.2) :
      PlainOf s number v

/-- Plain data. -/
abbrev Plain (s : Store) (v : Value) : Prop := s.PlainOf (fun _ => True) v

/-- Plain data that can be written: every number has few enough digits. -/
abbrev Spelled (s : Store) (v : Value) : Prop := s.PlainOf (fun n => isSpelled n = true) v

namespace PlainOf

variable {number : Int → Prop}

theorem grounded (h : s.PlainOf number v) : s.Grounded v := by
  induction h with
  | array hv _ ih => exact .array hv ih
  | @map v entries hv _ _ _ _ =>
    obtain ⟨id, rfl, ho⟩ := entries?_eq_some hv
    refine .item (fun x hx => ?_) (by rw [array?, asObject?_of_object? ho])
    cases hx
    exact ⟨_, ho⟩
  | _ => exact .item (by simp [Valid]) rfl

/-- Plain data hold neither nodes nor morphs. -/
theorem plainData (h : s.PlainOf number v) : s.PlainData v := by
  induction h with
  | array hv _ ih => exact plainData_array hv ih
  | @map v entries hv _ _ _ _ =>
    obtain ⟨id, rfl, ho⟩ := entries?_eq_some hv
    intro w hw
    cases hw with
    | here => exact ⟨fun x hx => by cases hx; exact ⟨_, ho⟩, by rw [isPrinted, asObject?_of_object? ho]⟩
    | item hitems => rw [array?, asObject?_of_object? ho] at hitems; cases hitems
  | _ => exact plainData_scalar (by simp)

theorem item {w : Value} (h : s.PlainOf number v) (hitems : s.array? v = some items) (hw : w ∈ items) :
    s.PlainOf number w := by
  cases h with
  | array hv hall =>
    rw [hv] at hitems
    cases hitems
    exact hall w hw
  | map hv _ _ =>
    obtain ⟨id, rfl, ho⟩ := entries?_eq_some hv
    rw [array?, asObject?_of_object? ho] at hitems
    cases hitems
  | _ => cases hitems

theorem inside {w : Value} (h : s.PlainOf number v) (hw : s.Inside v w) : s.PlainOf number w := by
  induction hw with
  | here => exact h
  | item hitems hmem _ ih => exact ih (h.item hitems hmem)

end PlainOf

theorem reprItems_isSome {views : List View} (h : ∀ v ∈ views, v.repr?.isSome) :
    (reprItems views).isSome := by
  induction views with
  | nil => rfl
  | cons v rest ih =>
    rw [List.forall_mem_cons] at h
    obtain ⟨text, htext⟩ := Option.isSome_iff_exists.1 h.1
    obtain ⟨texts, htexts⟩ := Option.isSome_iff_exists.1 (ih h.2)
    simp [reprItems, htext, htexts]

theorem reprEntries_isSome {views : List (View × View)}
    (h : ∀ e ∈ views, e.1.repr?.isSome ∧ e.2.repr?.isSome) : (reprEntries views).isSome := by
  induction views with
  | nil => rfl
  | cons e rest ih =>
    rw [List.forall_mem_cons] at h
    obtain ⟨key, hkey⟩ := Option.isSome_iff_exists.1 h.1.1
    obtain ⟨text, htext⟩ := Option.isSome_iff_exists.1 h.1.2
    obtain ⟨texts, htexts⟩ := Option.isSome_iff_exists.1 (ih h.2)
    simp [reprEntries, hkey, htext, htexts]

/-- What is spelled can be written at any depth, whatever has been opened around it. -/
theorem Spelled.repr?_viewWithin (h : s.Spelled v) :
    ∀ fuel opened depth, (s.viewWithin fuel opened depth v).repr?.isSome := by
  induction h with
  | @array v items hv _ ih =>
    intro fuel opened depth
    obtain ⟨id, rfl, ho | ho⟩ := array?_eq_some hv
    all_goals
      cases fuel with
      | zero => rfl
      | succ fuel =>
        rw [viewWithin]
        simp only [ho]
        split
        · next heq =>
          cases heq
          refine Option.isSome_map.trans (reprItems_isSome fun w hw => ?_)
          obtain ⟨x, hx, rfl⟩ := List.mem_map.1 hw
          exact ih x hx fuel _ _
        · rfl
  | @map v entries hv _ _ ihkeys ihvalues =>
    intro fuel opened depth
    obtain ⟨id, rfl, ho⟩ := entries?_eq_some hv
    cases fuel with
    | zero => rfl
    | succ fuel =>
      rw [viewWithin]
      simp only [ho]
      split
      · next heq =>
        cases heq
        refine Option.isSome_map.trans (reprEntries_isSome fun e he => ?_)
        obtain ⟨x, hx, rfl⟩ := List.mem_map.1 he
        exact ⟨ihkeys x hx fuel _ _, ihvalues x hx fuel _ _⟩
      · rfl
  | int n hn =>
    intro fuel opened depth
    cases fuel <;> simp [viewWithin, viewScalar, View.repr?, hn]
  | bool b => intro fuel opened depth; cases fuel <;> cases b <;> rfl
  | _ => intro fuel opened depth; cases fuel <;> rfl

theorem Spelled.text (h : s.Spelled v) : ∃ text, s.text v = .ok text := by
  obtain ⟨hvalid, hprinted⟩ := h.plainData v (.here v)
  rcases s.text_of_not_printed hvalid hprinted with htext | hwritten
  · exact htext
  · obtain ⟨text, htext⟩ := Option.isSome_iff_exists.1 (h.repr?_viewWithin s.viewFuel [] 0)
    exact ⟨text, by rw [hwritten, Fault.written, view, htext]⟩

end Store

namespace Display

/-- A value can be written, and it has a text. -/
def Writes (d : Display) (v : Value) : Prop :=
  (d.view v).repr?.isSome ∧ ∃ text, d.text v = .ok text

theorem repr?_raw {d : Display} {r : Raw} (hr : r.All d.Writes) : (d.raw r).repr?.isSome := by
  induction r using Raw.induct with
  | atom v => exact (hr v (.atom v)).1
  | list items ih =>
    refine Option.isSome_map.trans (reprItems_isSome fun w hw => ?_)
    rw [Raw.views_eq_map] at hw
    obtain ⟨r, hmem, rfl⟩ := List.mem_map.1 hw
    exact ih r hmem (hr.of_list r hmem)
  | tuple items ih =>
    refine Option.isSome_map.trans (reprItems_isSome fun w hw => ?_)
    rw [Raw.views_eq_map] at hw
    obtain ⟨r, hmem, rfl⟩ := List.mem_map.1 hw
    exact ih r hmem (hr.of_tuple r hmem)

/-- Where every value can be written, a fault is one of the syntax. -/
theorem agreeOn_spelled (d : Display) : d.AgreeOn (fun e _ => e.IsSyntax) d.Writes d where
  view _ _ := rfl
  text v := by
    rintro ⟨-, text, htext⟩
    rw [htext]
    exact .ok trivial
  shape _ := trivial
  tag _ _ _ := trivial
  long r hr hnone := by
    have hsome := repr?_raw hr
    rw [hnone] at hsome
    cases hsome

end Display

/-! ### The grammar -/

namespace Opcode

mutual

/-- The arrays that denote expressions. -/
inductive IsExpression (s : Store) : Value → Prop
  | get {v : Value} {path : String} (hv : s.array? v = some [.str "get", .str path]) :
      IsExpression s v
  | concat {v parts : Value} (hv : s.array? v = some [.str "concat", parts])
      (hparts : IsParams s parts) : IsExpression s v
  | subexpr {v : Value} {name : String} (hv : s.array? v = some [.str "subexpr", .str name]) :
      IsExpression s v
  | subexprParams {v params : Value} {name : String}
      (hv : s.array? v = some [.str "subexpr", .str name, params]) (hparams : IsParams s params) :
      IsExpression s v
  | subexprHash {v params hash : Value} {name : String}
      (hv : s.array? v = some [.str "subexpr", .str name, params, hash])
      (hparams : IsParams s params) (hhash : IsHash s hash) : IsExpression s v

/-- Parameters: null, or an array of arguments. -/
inductive IsParams (s : Store) : Value → Prop
  | null : IsParams s .null
  | array {v : Value} {items : List Value} (hv : s.array? v = some items)
      (hitems : ∀ w ∈ items, IsArgument s w) : IsParams s v

/-- Named arguments: null, or an array of names and arguments in turn. -/
inductive IsHash (s : Store) : Value → Prop
  | null : IsHash s .null
  | array {v : Value} {items : List Value} (hv : s.array? v = some items)
      (heven : items.length % 2 = 0)
      (hvalues : ∀ i w, items[2 * i + 1]? = some w → IsArgument s w) : IsHash s v

/-- An argument: anything that is no array, or an array that denotes an expression. -/
inductive IsArgument (s : Store) : Value → Prop
  | literal {v : Value} (hv : s.array? v = none) : IsArgument s v
  | expression {v : Value} (hv : IsExpression s v) : IsArgument s v

end

/-! ### What is read -/

variable {d : Display}

/-- The expression that a tagged array spells, given what its arguments denote. -/
inductive Spells (d : Display) : List Raw → Expr → Prop
  | get (p : String) : Spells d [.atom (.str "get"), .atom (.str p)] (.path p)
  | concat {parts : Raw} {es : List Expr} (hparts : params d parts = .ok es) :
      Spells d [.atom (.str "concat"), parts] (.concat es)
  | subexpr (name : String) :
      Spells d [.atom (.str "subexpr"), .atom (.str name)] (.subexpr name [] [])
  | subexprParams {name : String} {ps : Raw} {es : List Expr} (hps : params d ps = .ok es) :
      Spells d [.atom (.str "subexpr"), .atom (.str name), ps] (.subexpr name es [])
  | subexprHash {name : String} {ps h : Raw} {es : List Expr} {hs : List (String × Expr)}
      (hps : params d ps = .ok es) (hh : hash d h = .ok hs) :
      Spells d [.atom (.str "subexpr"), .atom (.str name), ps, h] (.subexpr name es hs)

theorem ExprTag.eq_of_ofRaw? {tag : Raw} {t : ExprTag} (h : ofRaw? tag = some t) :
    tag = .atom (.str t.name) := by
  unfold ofRaw? at h
  split at h
  · split_ifs at h with h1 h2 h3
    all_goals
      cases h
      subst_vars
      rfl
  · cases h

theorem helperName_eq_ok {tag : String} {r : Raw} {name : String}
    (h : helperName d tag r = .ok name) : r = .atom (.str name) := by
  unfold helperName at h
  split at h
  · cases h
    rfl
  · cases h

/-- **Reading a tagged array** gives the expression that it spells, and nothing else. -/
theorem expression_eq_ok_iff {items : List Raw} {e : Expr} :
    expression d items = .ok e ↔ Spells d items e := by
  constructor
  · intro h
    cases items with
    | nil => cases h
    | cons tag args =>
      unfold expression at h
      cases htag : ExprTag.ofRaw? tag with
      | none =>
        simp only [htag] at h
        exact absurd h (unknownTag_ne_ok _ _ _)
      | some t =>
        simp only [htag] at h
        have htag := ExprTag.eq_of_ofRaw? htag
        subst htag
        cases t with
        | get =>
          simp only at h
          split at h
          · cases h
            exact .get _
          · cases h
          · cases h
        | concat =>
          simp only at h
          split at h
          · obtain ⟨parts, hparts, h⟩ := bind_eq_ok h
            cases h
            exact .concat hparts
          · cases h
        | subexpr =>
          simp only at h
          split at h
          · obtain ⟨name, hname, h⟩ := bind_eq_ok h
            cases h
            rw [helperName_eq_ok hname]
            exact .subexpr name
          · obtain ⟨name, hname, h⟩ := bind_eq_ok h
            obtain ⟨ps, hps, h⟩ := bind_eq_ok h
            cases h
            rw [helperName_eq_ok hname]
            exact .subexprParams hps
          · obtain ⟨name, hname, h⟩ := bind_eq_ok h
            obtain ⟨ps, hps, h⟩ := bind_eq_ok h
            obtain ⟨hs, hhs, h⟩ := bind_eq_ok h
            cases h
            rw [helperName_eq_ok hname]
            exact .subexprHash hps hhs
          · cases h
  · intro h
    cases h with
    | get p => rfl
    | concat hparts =>
      show (do let parts ← params d _; return Expr.concat parts : Except Fault Expr) = _
      rw [hparts]
      rfl
    | subexpr name => rfl
    | subexprParams hps =>
      show (do let ps ← params d _; return Expr.subexpr _ ps [] : Except Fault Expr) = _
      rw [hps]
      rfl
    | subexprHash hps hh =>
      show (do
        let ps ← params d _
        let h ← hash d _
        return Expr.subexpr _ ps h : Except Fault Expr) = _
      rw [hps, hh]
      rfl

/-- A computation succeeds only if something holds, and if it does, then only a number that is too long
to be written can be in the way. -/
structure Decides {α : Type} (x : Except Fault α) (P : Prop) : Prop where
  sound : ∀ a, x = .ok a → P
  complete : P → FailsOnly (· = .longNumber) x

variable {f : Value → Raw} {P : Value → Prop}

/-- Items are read exactly if each of them is. -/
theorem paramItems_decides (h : ∀ w ∈ items, Decides (param d (f w)) (P w)) :
    Decides (paramItems d (items.map f)) (∀ w ∈ items, P w) := by
  induction items with
  | nil => exact ⟨fun _ _ => by simp, fun _ => failsOnly_ok _⟩
  | cons w rest ih =>
    rw [List.forall_mem_cons] at h
    rw [List.forall_mem_cons, List.map_cons, paramItems]
    constructor
    · intro es hok
      obtain ⟨e, he, hok⟩ := bind_eq_ok hok
      obtain ⟨es', hes, -⟩ := bind_eq_ok hok
      exact ⟨h.1.sound e he, (ih h.2).sound es' hes⟩
    · rintro ⟨hw, hrest⟩
      exact (h.1.complete hw).bind fun _ => ((ih h.2).complete hrest).bind fun _ => failsOnly_ok _

/-- Names and values in turn are read exactly if each value is: by induction on the pairs. -/
theorem hashItems_decides : ∀ {items : List Value} {done : List (String × Expr)},
    items.length % 2 = 0 → (∀ w ∈ items, FailsOnly (· = .longNumber) (d.rawText (f w))) →
    (∀ w ∈ items, Decides (param d (f w)) (P w)) →
    Decides (hashItems d (items.map f) done) (∀ i w, items[2 * i + 1]? = some w → P w)
  | [], done, _, _, _ => ⟨fun _ _ => by simp, fun _ => failsOnly_ok _⟩
  | [_], _, heven, _, _ => by simp at heven
  | key :: w :: rest, done, heven, htexts, h => by
    have heven' : rest.length % 2 = 0 := by
      simp only [List.length_cons] at heven
      omega
    simp only [List.forall_mem_cons] at htexts h
    have hrest : ∀ done, Decides (hashItems d (rest.map f) done)
        (∀ i w, rest[2 * i + 1]? = some w → P w) :=
      fun done => hashItems_decides heven' htexts.2.2 h.2.2
    rw [List.map_cons, List.map_cons, hashItems]
    constructor
    · intro es hok
      obtain ⟨e, he, hok⟩ := bind_eq_ok hok
      obtain ⟨name, -, hok⟩ := bind_eq_ok hok
      intro i x hx
      cases i with
      | zero =>
        cases hx
        exact h.2.1.sound e he
      | succ i => exact (hrest _).sound es hok i x (by simpa [Nat.mul_add] using hx)
    · intro hvalues
      refine (h.2.1.complete (hvalues 0 w rfl)).bind fun e => htexts.1.bind fun name => ?_
      refine (hrest _).complete fun i x hx => hvalues (i + 1) x ?_
      simpa [Nat.mul_add] using hx

/-! ### Expressions as objects -/

mutual

/-- An object is an expression, through and through. -/
def Expr.StandsAt (s : Store) : Expr → Value → Prop
  | .literal v, x => ∃ id, x = .object id ∧ s.object? id = some (.expression (.literal v))
  | .path p, x => ∃ id, x = .object id ∧ s.object? id = some (.expression (.path (.str p)))
  | .concat parts, x => ∃ id held vs, x = .object id ∧
      s.object? id = some (.expression (.concat held)) ∧ s.heldItems? held = some vs ∧
      AllStandAt s parts vs
  | .subexpr name ps h, x => ∃ id held vs heldHash entries, x = .object id ∧
      s.object? id = some (.expression (.subexpr ⟨.str name, held, heldHash⟩)) ∧
      s.heldItems? held = some vs ∧ s.heldEntries? heldHash = some entries ∧
      AllStandAt s ps vs ∧ HashStandsAt s h entries

/-- Objects are expressions, one by one. -/
def AllStandAt (s : Store) : List Expr → List Value → Prop
  | [], [] => True
  | e :: es, v :: vs => e.StandsAt s v ∧ AllStandAt s es vs
  | _, _ => False

/-- The values of a mapping are named arguments, in their order. -/
def HashStandsAt (s : Store) : List (String × Expr) → Entries → Prop
  | [], [] => True
  | (k, e) :: rest, (key, v) :: entries => key = .str k ∧ e.StandsAt s v ∧ HashStandsAt s rest entries
  | _, _ => False

end

variable {s t : Store} {v : Value}

theorem heldItems?_of_extends (hst : s.Extends t) {held : Held (List Value)} {vs : List Value}
    (h : s.heldItems? held = some vs) : t.heldItems? held = some vs := by
  cases held with
  | own items => exact h
  | shared v =>
    obtain ⟨id, rfl, ho | ho⟩ := array?_eq_some h
    all_goals rw [heldItems?, array?, asObject?_of_object? (hst id _ ho)]

theorem heldEntries?_of_extends (hst : s.Extends t) {held : Held Entries} {entries : Entries}
    (h : s.heldEntries? held = some entries) : t.heldEntries? held = some entries := by
  cases held with
  | own items => exact h
  | shared v =>
    obtain ⟨id, rfl, ho⟩ := entries?_eq_some h
    rw [heldEntries?, entries?, asObject?_of_object? (hst id _ ho)]

mutual

theorem Expr.StandsAt.mono (hst : s.Extends t) : ∀ {e : Expr} {x : Value}, e.StandsAt s x →
    e.StandsAt t x
  | .literal _, _, ⟨id, hx, ho⟩ => ⟨id, hx, hst id _ ho⟩
  | .path _, _, ⟨id, hx, ho⟩ => ⟨id, hx, hst id _ ho⟩
  | .concat parts, _, ⟨id, held, vs, hx, ho, hvs, hparts⟩ =>
    ⟨id, held, vs, hx, hst id _ ho, heldItems?_of_extends hst hvs, allStandAt_mono hst parts vs hparts⟩
  | .subexpr _ ps h, _, ⟨id, held, vs, heldHash, entries, hx, ho, hvs, hentries, hps, hh⟩ =>
    ⟨id, held, vs, heldHash, entries, hx, hst id _ ho, heldItems?_of_extends hst hvs,
      heldEntries?_of_extends hst hentries, allStandAt_mono hst ps vs hps,
      hashStandsAt_mono hst h entries hh⟩

theorem allStandAt_mono (hst : s.Extends t) : ∀ es vs, AllStandAt s es vs → AllStandAt t es vs
  | [], [], h => h
  | _ :: es, _ :: vs, ⟨he, hes⟩ => ⟨he.mono hst, allStandAt_mono hst es vs hes⟩

theorem hashStandsAt_mono (hst : s.Extends t) :
    ∀ h entries, HashStandsAt s h entries → HashStandsAt t h entries
  | [], [], h => h
  | (_, _) :: rest, (_, _) :: entries, ⟨hk, he, hrest⟩ =>
    ⟨hk, he.mono hst, hashStandsAt_mono hst rest entries hrest⟩

end

mutual

/-- **An expression is made an object** that is this expression. -/
theorem allocate_standsAt : ∀ (e : Expr) (s : Store),
    ∃ x t, allocate e s = .ok x t ∧ s.Extends t ∧ e.StandsAt t x
  | .literal v, s => ⟨_, _, rfl, s.extends_push _, s.next, rfl, s.object?_push_next _⟩
  | .path p, s => ⟨_, _, rfl, s.extends_push _, s.next, rfl, s.object?_push_next _⟩
  | .concat parts, s => by
    obtain ⟨vs, t, hall, hst, hvs⟩ := allocateAll_standAt parts s
    exact ⟨_, _, bind_of_ok hall, hst.trans (t.extends_push _), t.next, _, vs, rfl,
      t.object?_push_next _, rfl, allStandAt_mono (t.extends_push _) parts vs hvs⟩
  | .subexpr name ps h, s => by
    obtain ⟨vs, t, hall, hst, hvs⟩ := allocateAll_standAt ps s
    obtain ⟨entries, u, hhash, htu, hentries⟩ := allocateHash_standsAt h t
    exact ⟨_, _, (bind_of_ok hall).trans (bind_of_ok hhash),
      (hst.trans htu).trans (u.extends_push _), u.next, _, vs, _, entries, rfl,
      u.object?_push_next _, rfl, rfl, allStandAt_mono (htu.trans (u.extends_push _)) ps vs hvs,
      hashStandsAt_mono (u.extends_push _) h entries hentries⟩

theorem allocateAll_standAt : ∀ (es : List Expr) (s : Store),
    ∃ vs t, allocateAll es s = .ok vs t ∧ s.Extends t ∧ AllStandAt t es vs
  | [], s => ⟨[], s, rfl, s.extends_refl, trivial⟩
  | e :: rest, s => by
    obtain ⟨v, t, hone, hst, hv⟩ := allocate_standsAt e s
    obtain ⟨vs, u, hall, htu, hvs⟩ := allocateAll_standAt rest t
    exact ⟨v :: vs, u, (bind_of_ok hone).trans (bind_of_ok hall), hst.trans htu,
      hv.mono htu, hvs⟩

theorem allocateHash_standsAt : ∀ (h : List (String × Expr)) (s : Store),
    ∃ entries t, allocateHash h s = .ok entries t ∧ s.Extends t ∧ HashStandsAt t h entries
  | [], s => ⟨[], s, rfl, s.extends_refl, trivial⟩
  | (k, e) :: rest, s => by
    obtain ⟨v, t, hone, hst, hv⟩ := allocate_standsAt e s
    obtain ⟨entries, u, hhash, htu, hentries⟩ := allocateHash_standsAt rest t
    exact ⟨(.str k, v) :: entries, u, (bind_of_ok hone).trans (bind_of_ok hhash),
      hst.trans htu, rfl, hv.mono htu, hentries⟩

end

/-! ### Exactness -/

/-- A value is read in each of the three ways exactly if the grammar has it there. -/
structure Exact (s : Store) (v : Value) : Prop where
  param : Decides (param s.display (Raw.ofValue s v)) (IsArgument s v)
  params : Decides (params s.display (Raw.ofValue s v)) (IsParams s v)
  hash : Decides (hash s.display (Raw.ofValue s v)) (IsHash s v)

theorem exact_of_item (hv : s.array? v = none) : Exact s v := by
  have hraw := ofValue_item hv
  refine ⟨?_, ?_, ?_⟩ <;> rw [hraw]
  · exact ⟨fun _ _ => .literal hv, fun _ => failsOnly_ok _⟩
  · constructor
    · intro es h
      cases v with
      | null => exact .null
      | _ => cases h
    · intro h
      cases h with
      | null => exact failsOnly_ok _
      | array hv' _ => rw [hv] at hv'; cases hv'
  · constructor
    · intro es h
      cases v with
      | null => exact .null
      | _ => cases h
    · intro h
      cases h with
      | null => exact failsOnly_ok _
      | array hv' _ _ => rw [hv] at hv'; cases hv'

/-- An array whose items are texts where they have to be. -/
theorem map_ofValue_eq_str {raws : List Raw} {text : String} (hground : ∀ w ∈ items, s.Grounded w)
    (h : items.map (Raw.ofValue s) = .atom (.str text) :: raws) :
    ∃ rest, items = .str text :: rest ∧ rest.map (Raw.ofValue s) = raws := by
  cases items with
  | nil => cases h
  | cons w rest =>
    rw [List.map_cons] at h
    injection h with hw hrest
    refine ⟨rest, ?_, hrest⟩
    cases hground w List.mem_cons_self with
    | item _ hnone =>
      rw [ofValue_item hnone] at hw
      cases hw
      rfl
    | array hsome hitems =>
      obtain ⟨wrap, rfl | rfl, hwrap⟩ := (Grounded.array hsome hitems).ofValue_array hsome
      all_goals
        rw [hwrap] at hw
        cases hw

/-- A tagged array is read exactly if it is in the grammar, given that its items are read exactly. -/
theorem expression_decides (hv : s.array? v = some items) (hground : ∀ w ∈ items, s.Grounded w)
    (hexact : ∀ w ∈ items, Exact s w) :
    Decides (expression s.display (items.map (Raw.ofValue s))) (IsExpression s v) := by
  constructor
  · intro e h
    rw [expression_eq_ok_iff] at h
    generalize hraws : items.map (Raw.ofValue s) = raws at h
    cases h with
    | get p =>
      obtain ⟨rest, rfl, hrest⟩ := map_ofValue_eq_str hground hraws
      obtain ⟨rest, rfl, hnil⟩ :=
        map_ofValue_eq_str (fun w hw => hground w (List.mem_cons_of_mem _ hw)) hrest
      rw [List.map_eq_nil_iff.1 hnil] at hv
      exact .get hv
    | concat hparts =>
      obtain ⟨rest, rfl, hrest⟩ := map_ofValue_eq_str hground hraws
      obtain ⟨parts, rfl, rfl⟩ := List.map_eq_singleton_iff.1 hrest
      exact .concat hv ((hexact parts (by simp)).params.sound _ hparts)
    | subexpr name =>
      obtain ⟨rest, rfl, hrest⟩ := map_ofValue_eq_str hground hraws
      obtain ⟨rest, rfl, hnil⟩ :=
        map_ofValue_eq_str (fun w hw => hground w (List.mem_cons_of_mem _ hw)) hrest
      rw [List.map_eq_nil_iff.1 hnil] at hv
      exact .subexpr hv
    | subexprParams hps =>
      obtain ⟨rest, rfl, hrest⟩ := map_ofValue_eq_str hground hraws
      obtain ⟨args, rfl, hargs⟩ :=
        map_ofValue_eq_str (fun w hw => hground w (List.mem_cons_of_mem _ hw)) hrest
      obtain ⟨ps, rfl, rfl⟩ := List.map_eq_singleton_iff.1 hargs
      exact .subexprParams hv ((hexact ps (by simp)).params.sound _ hps)
    | subexprHash hps hh =>
      obtain ⟨rest, rfl, hrest⟩ := map_ofValue_eq_str hground hraws
      obtain ⟨args, rfl, hargs⟩ :=
        map_ofValue_eq_str (fun w hw => hground w (List.mem_cons_of_mem _ hw)) hrest
      obtain ⟨ps, last, rfl, rfl, hlast⟩ := List.map_eq_cons_iff.1 hargs
      obtain ⟨h, rfl, rfl⟩ := List.map_eq_singleton_iff.1 hlast
      exact .subexprHash hv ((hexact ps (by simp)).params.sound _ hps)
        ((hexact h (by simp)).hash.sound _ hh)
  · intro h
    cases h with
    | get hv' =>
      rw [hv] at hv'
      cases hv'
      exact failsOnly_ok _
    | concat hv' hparts =>
      rw [hv] at hv'
      cases hv'
      exact ((hexact _ (by simp)).params.complete hparts).bind fun _ => failsOnly_ok _
    | subexpr hv' =>
      rw [hv] at hv'
      cases hv'
      exact failsOnly_ok _
    | subexprParams hv' hparams =>
      rw [hv] at hv'
      cases hv'
      exact ((hexact _ (by simp)).params.complete hparams).bind fun _ => failsOnly_ok _
    | @subexprHash _ ps h _ hv' hparams hhash =>
      rw [hv] at hv'
      cases hv'
      exact ((hexact ps (by simp)).params.complete hparams).bind fun _ =>
        ((hexact h (by simp)).hash.complete hhash).bind fun _ => failsOnly_ok _

theorem isArgument_array_iff (hv : s.array? v = some items) :
    IsArgument s v ↔ IsExpression s v := by
  constructor
  · intro h
    cases h with
    | literal hnone => rw [hv] at hnone; cases hnone
    | expression h => exact h
  · exact .expression

/-- **Plain data are read exactly**, by induction on the data. -/
theorem exact_of_plain (h : s.Plain v) : Exact s v := by
  induction h with
  | @array v items hv hplain ih =>
    have hground : ∀ w ∈ items, s.Grounded w := fun w hw => (hplain w hw).grounded
    obtain ⟨wrap, hkind, hwrap⟩ := (Grounded.array hv hground).ofValue_array hv
    refine ⟨?_, ?_, ?_⟩
    · rw [isArgument_array_iff hv, hwrap]
      rcases hkind with rfl | rfl <;> exact expression_decides hv hground ih
    · have hparams : params s.display (Raw.ofValue s v) =
          paramItems s.display (items.map (Raw.ofValue s)) := by
        rw [hwrap]
        rcases hkind with rfl | rfl <;> rfl
      rw [hparams]
      have hdecides := paramItems_decides fun w hw => (ih w hw).param
      constructor
      · exact fun es hok => .array hv (hdecides.sound es hok)
      · intro hgrammar
        cases hgrammar with
        | null => cases hv
        | array hv' hall =>
          rw [hv] at hv'
          cases hv'
          exact hdecides.complete hall
    · have hhash : hash s.display (Raw.ofValue s v) =
          if items.length % 2 = 1 then
            .error (.ofShape (.oddHash (Raw.views s.display.view (items.map (Raw.ofValue s)))))
          else hashItems s.display (items.map (Raw.ofValue s)) [] := by
        rw [hwrap]
        rcases hkind with rfl | rfl <;> simp only [hash, List.length_map]
      have hdecides (heven : items.length % 2 = 0) :
          Decides (hashItems s.display (items.map (Raw.ofValue s)) []) _ := hashItems_decides heven
        (fun w hw => (hplain w hw).plainData.reads.rawText) fun w hw => (ih w hw).param
      rw [hhash]
      constructor
      · intro h hok
        split_ifs at hok with hodd
        have heven : items.length % 2 = 0 := by omega
        exact .array hv heven ((hdecides heven).sound h hok)
      · intro hgrammar
        cases hgrammar with
        | null => cases hv
        | array hv' heven hvalues =>
          rw [hv] at hv'
          cases hv'
          rw [if_neg (by omega)]
          exact (hdecides heven).complete hvalues
  | @map v entries hv _ _ _ _ =>
    obtain ⟨id, rfl, ho⟩ := entries?_eq_some hv
    exact exact_of_item (by rw [array?, asObject?_of_object? ho])
  | _ => exact exact_of_item rfl

/-- What is opened no further is there and no array. -/
theorem atom_of_grounded (h : s.Grounded v) {w : Value} (hw : (Raw.ofValue s v).Atom w) :
    s.Valid w ∧ s.array? w = none := by
  induction h with
  | item hvalid hnone =>
    rw [ofValue_item hnone] at hw
    cases hw
    exact ⟨hvalid, hnone⟩
  | array hv hitems ih =>
    obtain ⟨wrap, hkind, hwrap⟩ := (Grounded.array hv hitems).ofValue_array hv
    rw [hwrap] at hw
    obtain ⟨r, hr, hw⟩ : ∃ r ∈ _, Raw.Atom r w := by
      rcases hkind with rfl | rfl
      · cases hw with
        | list hr hw => exact ⟨_, hr, hw⟩
      · cases hw with
        | tuple hr hw => exact ⟨_, hr, hw⟩
    obtain ⟨x, hx, rfl⟩ := List.mem_map.1 hr
    exact ih x hx hw

theorem param_failsInSyntax (h : s.Spelled v) :
    FailsOnly Fault.IsSyntax (param s.display (Raw.ofValue s v)) :=
  fun _ => (readAlike s.display.agreeOn_spelled (kind_true _) fun _ hw =>
    have hspelled := h.inside (Raw.inside_of_atom hw)
    ⟨Spelled.repr?_viewWithin hspelled _ _ _, Spelled.text hspelled⟩).param.of_error

/-- **Expression arrays are read exactly.** An array of plain data that can be written is read exactly if
it is in the grammar. Whatever the numbers are, only arrays in the grammar are read, and what is read is
an expression in which no array is a literal. An array that is not read is not in the grammar, and the
fault is one of the syntax, unless there is a number in it that is too long to be written. -/
theorem expressionOf_exact (hplain : s.Plain v) (harray : (s.array? v).isSome) :
    (s.Spelled v → ((∃ x t, expressionOf v s = .ok x t) ↔ IsExpression s v)) ∧
    (∀ x t, expressionOf v s = .ok x t → IsExpression s v ∧ s.Extends t ∧
      ∃ e : Expr, e.Holds (fun w => s.array? w = none) ∧ e.StandsAt t x) ∧
    ∀ fault t, expressionOf v s = .error fault t →
      fault.IsSyntax ∧ ¬ IsExpression s v ∨ fault = .longNumber ∧ ¬ s.Spelled v := by
  obtain ⟨items, hv⟩ := Option.isSome_iff_exists.1 harray
  obtain ⟨wrap, hkind, hwrap⟩ := hplain.grounded.ofValue_array hv
  have hread : expressionOf v s =
      (do let e ← lift (param s.display (Raw.ofValue s v)); allocate e) s := by
    unfold expressionOf
    rw [bind_store, hv, hwrap]
    rcases hkind with rfl | rfl <;> rfl
  have hexact := (exact_of_plain hplain).param
  rw [isArgument_array_iff hv] at hexact
  have hholds (e : Expr) : param s.display (Raw.ofValue s v) = .ok e →
      e.Holds fun w => s.array? w = none :=
    (readAlike (s.display.agreeOn_refl _) (kind_holds _) fun w hw =>
      (atom_of_grounded hplain.grounded hw).2).param.of_ok
  cases hresult : param s.display (Raw.ofValue s v) with
  | ok e =>
    obtain ⟨x, t, halloc, hst, hx⟩ := allocate_standsAt e s
    have hok : expressionOf v s = .ok x t := by rw [hread, hresult]; exact halloc
    have hgrammar := hexact.sound e hresult
    refine ⟨fun _ => ⟨fun _ => hgrammar, fun _ => ⟨x, t, hok⟩⟩, fun x' t' h => ?_, fun fault u h => ?_⟩
    · rw [hok] at h
      cases h
      exact ⟨hgrammar, hst, e, hholds e hresult, hx⟩
    · rw [hok] at h
      cases h
  | error fault =>
    have herror : expressionOf v s = .error fault s := by rw [hread, hresult]; rfl
    have hlong : fault.IsSyntax → ¬ IsExpression s v := by
      intro hrefused hgrammar
      rw [hexact.complete hgrammar fault hresult] at hrefused
      exact hrefused
    refine ⟨fun hspelled => ⟨?_, fun hgrammar => ?_⟩, fun x' t' h => ?_, fun fault' u h => ?_⟩
    · rintro ⟨x, t, h⟩
      rw [herror] at h
      cases h
    · exact absurd hgrammar (hlong (param_failsInSyntax hspelled fault hresult))
    · rw [herror] at h
      cases h
    · rw [herror] at h
      cases h
      rcases param_failsByReading hplain.plainData.reads fault hresult with hrefused | rfl
      · exact .inl ⟨hrefused, hlong hrefused⟩
      · exact .inr ⟨rfl, fun hspelled => param_failsInSyntax hspelled _ hresult⟩

/-- A helper with nested parameters and a named argument that is a mapping, and beside it a
concatenation in which an array has a tag that there is not. -/
def nestedArrays : Store where
  objects := #[
    .list [.str "subexpr", .str "format", .object ⟨1⟩, .object ⟨2⟩],
    .tuple [.object ⟨3⟩, .int 1],
    .list [.str "options", .object ⟨4⟩],
    .list [.str "get", .str "user.name"],
    .map [(.str "short", .bool true)],
    .list [.str "concat", .object ⟨6⟩],
    .list [.str "a", .object ⟨7⟩],
    .list [.str "unless", .str "b"]]

/-- The helper is read, the concatenation is not, because of what stands in it. -/
theorem expressionOf_exact_nestedArrays :
    (∃ x t, expressionOf (.object ⟨0⟩) nestedArrays = .ok x t) ∧
      ∃ fault t, expressionOf (.object ⟨5⟩) nestedArrays = .error fault t ∧ fault.IsSyntax := by
  have hstr : ∀ {number} {items : List Value}, (∀ w ∈ items, ∃ text, w = .str text) →
      ∀ w ∈ items, nestedArrays.PlainOf number w := by
    intro number items h w hw
    obtain ⟨text, rfl⟩ := h w hw
    exact .str text
  have hhelper : ∀ {number : Int → Prop}, number 1 → nestedArrays.PlainOf number (.object ⟨0⟩) := by
    intro number hone
    refine .array rfl ?_
    simp only [List.forall_mem_cons, List.not_mem_nil, false_imp_iff, implies_true, and_true]
    refine ⟨.str _, .str _, .array rfl ?_, .array rfl ?_⟩
    · simpa using ⟨.array rfl (hstr (by simp)), .int 1 hone⟩
    · simpa using ⟨.str "options", .map rfl (by simpa using .str _) (by simpa using .bool _)⟩
  have hconcat : ∀ {number}, nestedArrays.PlainOf number (.object ⟨5⟩) := by
    intro number
    refine .array rfl ?_
    simp only [List.forall_mem_cons, List.not_mem_nil, false_imp_iff, implies_true, and_true]
    refine ⟨.str _, .array rfl ?_⟩
    simpa using ⟨.str "a", .array rfl (hstr (by simp))⟩
  constructor
  · refine ((expressionOf_exact (hhelper trivial) rfl).1 (hhelper (by decide +kernel))).2
      (.subexprHash rfl (.array rfl ?_) (.array rfl rfl ?_))
    · simpa using ⟨.expression (.get rfl), .literal rfl⟩
    · intro i w hw
      cases i with
      | zero =>
        cases hw
        exact .literal rfl
      | succ i => simp [Nat.mul_add] at hw
  · have hunless : nestedArrays.array? (.object ⟨7⟩) = some [.str "unless", .str "b"] := rfl
    have hparts : nestedArrays.array? (.object ⟨5⟩) = some [.str "concat", .object ⟨6⟩] := rfl
    have hitem : ¬ IsArgument nestedArrays (.object ⟨7⟩) := by
      rw [isArgument_array_iff hunless]
      intro h
      cases h with
      | get hv | concat hv _ | subexpr hv | subexprParams hv _ | subexprHash hv _ _ =>
        simp [hunless] at hv
    have hnot : ¬ IsExpression nestedArrays (.object ⟨5⟩) := by
      intro h
      cases h with
      | concat hv hall =>
        cases hv
        cases hall with
        | array hv hitems =>
          cases hv
          exact hitem (hitems _ (by simp))
      | get hv | subexpr hv | subexprParams hv _ | subexprHash hv _ _ => simp [hparts] at hv
    have hexact := expressionOf_exact hconcat rfl
    cases hread : expressionOf (.object ⟨5⟩) nestedArrays with
    | ok x t => exact absurd ((hexact.1 hconcat).1 ⟨x, t, hread⟩) hnot
    | error fault t =>
      rcases hexact.2.2 fault t hread with ⟨hrefused, -⟩ | ⟨-, hspelled⟩
      · exact ⟨fault, t, rfl, hrefused⟩
      · exact absurd hconcat hspelled

/-- The least number that is too long to be written. -/
def longInt : Int := 10 ^ Text.digitLimit

/-- A number that is too long to be written, where a path should be. -/
def longPath : Store where
  objects := #[.list [.str "get", .int longInt]]

/-- The array is not in the grammar, but the fault is none of the syntax: it tells that the number in it
cannot be written. -/
theorem expressionOf_longPath :
    longPath.Plain (.object ⟨0⟩) ∧ ¬ IsExpression longPath (.object ⟨0⟩) ∧
      expressionOf (.object ⟨0⟩) longPath = .error .longNumber longPath ∧
      ¬ Fault.longNumber.IsSyntax := by
  have hitems : longPath.array? (.object ⟨0⟩) = some [.str "get", .int longInt] := rfl
  refine ⟨.array hitems (by simpa using ⟨.str _, .int _ trivial⟩), ?_, ?_, id⟩
  · intro h
    cases h with
    | get hv | concat hv _ | subexpr hv | subexprParams hv _ | subexprHash hv _ _ =>
      simp [hitems] at hv
  · have hlong : isSpelled longInt = false := by decide +kernel
    have hread : expressionOf (.object ⟨0⟩) longPath =
        .error (.ofShape (.notPath (.int longInt))) longPath := rfl
    rw [hread, Fault.ofShape, Fault.showing, if_neg]
    simp [ShapeFault.shown, View.repr?, hlong]

end Opcode

end TemplateRecovery
