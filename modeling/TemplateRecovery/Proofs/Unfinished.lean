import TemplateRecovery.Proofs.Context
import TemplateRecovery.Proofs.Taxonomy
import TemplateRecovery.Recover

/-!
# Unfinished trees

A tree is unfinished as long as a placeholder has no morph, a bound attribute no value or a block no
first branch. Such a tree cannot be printed, and nothing else stands in the way of a tree whose names
are texts, as long as its widths can be written.

* `Store.Legible` are expressions and `Store.Proper` trees whose names, paths and contents are texts.
* `Store.Unfinished` are the parts that cannot be printed yet.
* `Store.Proper.failsOnly` says that printing fails on an unfinished part only, by a fault of shape.
* `prints_iff_finished` says exactly when a tree is printed, and that a recovered text leaves no part
  out.
-/

namespace TemplateRecovery

open View Recover Width Store

variable {held : Held Entries} {entries hash : Entries} {id : ObjectId} {c : HelperCall}
  {params : List Value} {name text : String} {added : Fields} {x : View} {indent : Int} {s : Store}
  {v : Value} {step : Option Int}

namespace Store

variable {s : Store} {v w : Value}

/-! ### Trees whose names are texts -/

/-- A value that prints nothing by itself and has a text. -/
structure Inert (s : Store) (v : Value) : Prop where
  unprinted : s.isPrinted v = false
  text : ∃ text, s.text v = .ok text

/-- Expressions whose names and paths are texts and whose literals are inert. -/
inductive Legible (s : Store) : Value → Prop
  | literal {id : ObjectId} {v : Value} (ho : s.object? id = some (.expression (.literal v)))
      (hv : s.Inert v) : Legible s (.object id)
  | path {id : ObjectId} {p : String} (ho : s.object? id = some (.expression (.path (.str p)))) :
      Legible s (.object id)
  | concat {id : ObjectId} {held : Held (List Value)} {parts : List Value}
      (ho : s.object? id = some (.expression (.concat held)))
      (hheld : s.heldItems? held = some parts) (hparts : ∀ w ∈ parts, Legible s w) :
      Legible s (.object id)
  | subexpr {id : ObjectId} {name : String} {held : Held (List Value)} {heldHash : Held Entries}
      {params : List Value} {hash : Entries}
      (ho : s.object? id = some (.expression (.subexpr ⟨.str name, held, heldHash⟩)))
      (hheld : s.heldItems? held = some params) (hheldHash : s.heldEntries? heldHash = some hash)
      (hparams : ∀ w ∈ params, Legible s w) (hkeys : ∀ e ∈ hash, s.Inert e.1)
      (hvalues : ∀ e ∈ hash, Legible s e.2) : Legible s (.object id)

/-- The call of a helper whose name is a text and whose arguments are legible. -/
structure LegibleCall (s : Store) (c : HelperCall) (name : String) (params : List Value)
    (hash : Entries) : Prop where
  eq_name : c.name = .str name
  heldParams : s.heldItems? c.params = some params
  heldHash : s.heldEntries? c.hash = some hash
  legible : ∀ w ∈ params, s.Legible w
  keys : ∀ e ∈ hash, s.Inert e.1
  values : ∀ e ∈ hash, s.Legible e.2

/-- A bound attribute whose name is a text and whose value, if it has one, is legible. -/
def ProperAttribute (s : Store) (w : Value) : Prop :=
  ∃ id key value owner added, w = .object id ∧
    s.object? id = some (.morph (.attribute (.str key) value owner) added) ∧
      (value ≠ .null → s.Legible value)

/-- A modifier that is a legible call. -/
def ProperModifier (s : Store) (w : Value) : Prop :=
  ∃ id c added name params hash, w = .object id ∧ s.object? id = some (.morph (.element c) added) ∧
    s.LegibleCall c name params hash

/-- **A tree whose names and contents are texts**, finished or not. -/
inductive Proper (s : Store) : Value → Prop
  | fragment {id : ObjectId} {children : Held (List Value)} {added : Fields} {kids : List Value}
      (ho : s.object? id = some (.node ⟨.fragment, children⟩ added))
      (hchildren : s.heldItems? children = some kids) (hkids : ∀ w ∈ kids, Proper s w) :
      Proper s (.object id)
  | element {id : ObjectId} {tag : String} {ns : Value} {attributes : Held Entries}
      {bound modifiers children : Held (List Value)} {added : Fields} {entries : Entries}
      {bs ms kids : List Value}
      (ho : s.object? id =
        some (.node ⟨.element (.str tag) ns attributes bound modifiers, children⟩ added))
      (hattributes : s.heldEntries? attributes = some entries)
      (hentries : ∀ e ∈ entries, s.Inert e.1 ∧ s.Inert e.2)
      (hbound : s.heldItems? bound = some bs) (hbs : ∀ w ∈ bs, s.ProperAttribute w)
      (hmodifiers : s.heldItems? modifiers = some ms) (hms : ∀ w ∈ ms, s.ProperModifier w)
      (hchildren : s.heldItems? children = some kids) (hkids : ∀ w ∈ kids, Proper s w) :
      Proper s (.object id)
  | text {id : ObjectId} {contents : String} {children : Held (List Value)} {added : Fields}
      (ho : s.object? id = some (.node ⟨.text (.str contents), children⟩ added)) :
      Proper s (.object id)
  | comment {id : ObjectId} {contents : String} {children : Held (List Value)} {added : Fields}
      (ho : s.object? id = some (.node ⟨.comment (.str contents), children⟩ added)) :
      Proper s (.object id)
  | unbound {id : ObjectId} {parent : Value} {children : Held (List Value)} {added : Fields}
      (ho : s.object? id = some (.node ⟨.placeholder .null parent, children⟩ added)) :
      Proper s (.object id)
  | inline {id m : ObjectId} {parent : Value} {children : Held (List Value)} {added more : Fields}
      {c : HelperCall} {name : String} {params : List Value} {hash : Entries}
      (ho : s.object? id = some (.node ⟨.placeholder (.object m) parent, children⟩ added))
      (hm : s.object? m = some (.morph (.inline c) more)) (hc : s.LegibleCall c name params hash) :
      Proper s (.object id)
  | content {id m : ObjectId} {parent v : Value} {children : Held (List Value)}
      {added more : Fields}
      (ho : s.object? id = some (.node ⟨.placeholder (.object m) parent, children⟩ added))
      (hm : s.object? m = some (.morph (.content v) more)) (hv : s.Inert v) : Proper s (.object id)
  | block {id m : ObjectId} {parent primary alternate : Value} {children : Held (List Value)}
      {added more : Fields} {c : HelperCall} {name : String} {params : List Value} {hash : Entries}
      (ho : s.object? id = some (.node ⟨.placeholder (.object m) parent, children⟩ added))
      (hm : s.object? m = some (.morph (.block c primary alternate) more))
      (hc : s.LegibleCall c name params hash) (hprimary : primary ≠ .null → Proper s primary)
      (halternate : alternate ≠ .null → Proper s alternate) : Proper s (.object id)

/-- **Parts that cannot be printed yet**: a placeholder without a morph, a bound attribute without a
value, a block without its first branch. -/
inductive Unfinished (s : Store) : Value → Prop
  | placeholder {id : ObjectId} {parent : Value} {children : Held (List Value)} {added : Fields}
      (ho : s.object? id = some (.node ⟨.placeholder .null parent, children⟩ added)) :
      Unfinished s (.object id)
  | attribute {id : ObjectId} {key owner : Value} {added : Fields}
      (ho : s.object? id = some (.morph (.attribute key .null owner) added)) :
      Unfinished s (.object id)
  | block {id : ObjectId} {c : HelperCall} {alternate : Value} {added : Fields}
      (ho : s.object? id = some (.morph (.block c .null alternate) added)) :
      Unfinished s (.object id)

/-- A node that is written at its indentation: all but fragments. -/
def Padded (s : Store) (w : Value) : Prop :=
  ∃ id n added, w = .object id ∧ s.object? id = some (.node n added) ∧ n.shape.kind ≠ .fragment

/-- All widths at which a tree is written can be written. -/
def Fits (s : Store) (v : Value) (step indent : Int) : Prop :=
  ∀ k w, s.Reaches v k w → s.Padded w → fits (indent + step * k) = true

/-! ### Such trees are finite -/

theorem wordedItems_of_heldItems? {held : Held (List Value)} {items : List Value}
    (h : s.heldItems? held = some items) : s.wordedItems held = [] := by
  cases held with
  | own items => rfl
  | shared v =>
    obtain ⟨id, rfl, ho | ho⟩ := array?_eq_some h
    · rw [wordedItems, asObject?_of_object? ho]
    · rw [wordedItems, asObject?_of_object? ho]

theorem heldEntries?_eq_some (h : s.heldEntries? held = some entries) :
    held = .own entries ∨ ∃ v, held = .shared v ∧ s.entries? v = some entries := by
  cases held with
  | own entries' => exact .inl (congrArg _ (Option.some.inj h))
  | shared v => exact .inr ⟨v, rfl, h⟩

theorem treedEntries_of_heldEntries? (h : s.heldEntries? held = some entries) :
    s.treedEntries held = entries.map Prod.snd := by
  obtain rfl | ⟨v, rfl, hv⟩ := heldEntries?_eq_some h
  · rfl
  · rw [treedEntries, hv, Option.getD_some]

theorem wordedEntries_of_heldEntries? (h : s.heldEntries? held = some entries) :
    s.wordedEntries held = entries.map Prod.fst := by
  obtain rfl | ⟨v, rfl, hv⟩ := heldEntries?_eq_some h
  · rfl
  · rw [wordedEntries, hv]

/-- What an object passes is finite if its parts are, and nothing that is shown prints. -/
theorem finite_of_treed {o : Object} (ho : s.object? id = some o)
    (htreed : ∀ w ∈ s.treed o, s.Finite w) (hworded : ∀ w ∈ s.worded o, s.isPrinted w = false) :
    s.Finite (.object id) := by
  refine finite_of_parts ho fun w hw => ?_
  rcases List.mem_append.1 hw with hw | hw
  · exact htreed w hw
  · obtain ⟨hw, hprinted⟩ := List.mem_filter.1 hw
    rw [hworded w hw] at hprinted
    cases hprinted

theorem finite_of_word {o : Object} (ho : s.object? id = some o) (htreed : s.treed o = [])
    (hworded : s.worded o = [w]) (hw : s.isPrinted w = false) : s.Finite (.object id) :=
  finite_of_treed ho (by simp [htreed]) (by simpa [hworded])

/-- An object that passes the items of an array is finite if they are. -/
theorem finite_of_items {o : Object} {held : Held (List Value)} {items : List Value}
    (ho : s.object? id = some o) (h : s.heldItems? held = some items)
    (htreed : s.treed o = s.treedItems held) (hworded : s.worded o = s.wordedItems held)
    (hitems : ∀ w ∈ items, s.Finite w) : s.Finite (.object id) := by
  rw [treedItems_of_heldItems? h] at htreed
  rw [wordedItems_of_heldItems? h] at hworded
  exact finite_of_treed ho (htreed ▸ hitems) (by simp [hworded])

/-- Everything that a call passes is finite if its arguments are, and nothing that it shows prints. -/
theorem call_passes (hparams : s.heldItems? c.params = some params)
    (hhash : s.heldEntries? c.hash = some hash) (hname : c.name = .str name)
    (hkeys : ∀ e ∈ hash, s.Inert e.1) (hfinite : ∀ w ∈ params, s.Finite w)
    (hvalues : ∀ e ∈ hash, s.Finite e.2) :
    (∀ w ∈ s.treedCall c, s.Finite w) ∧ ∀ w ∈ s.wordedCall c, s.isPrinted w = false := by
  rw [treedCall, treedItems_of_heldItems? hparams, treedEntries_of_heldEntries? hhash, wordedCall,
    wordedItems_of_heldItems? hparams, wordedEntries_of_heldEntries? hhash, hname]
  constructor
  · exact List.forall_mem_append.2 ⟨hfinite, List.forall_mem_map.2 hvalues⟩
  · exact List.forall_mem_cons.2 ⟨rfl, List.forall_mem_map.2 fun e he => (hkeys e he).unprinted⟩

theorem Legible.finite (h : s.Legible v) : s.Finite v := by
  induction h with
  | literal ho hv => exact finite_of_word ho rfl rfl hv.unprinted
  | path ho => exact finite_of_word ho rfl rfl rfl
  | concat ho hheld _ ih => exact finite_of_items ho hheld rfl rfl ih
  | subexpr ho hheld hheldHash _ hkeys _ ihparams ihvalues =>
    obtain ⟨htreed, hworded⟩ := call_passes (c := ⟨_, _, _⟩) hheld hheldHash rfl hkeys
      ihparams ihvalues
    exact finite_of_treed ho htreed hworded

theorem LegibleCall.passes (h : s.LegibleCall c name params hash) :
    (∀ w ∈ s.treedCall c, s.Finite w) ∧ ∀ w ∈ s.wordedCall c, s.isPrinted w = false :=
  call_passes h.heldParams h.heldHash h.eq_name h.keys (fun w hw => (h.legible w hw).finite)
    fun e he => (h.values e he).finite

theorem ProperAttribute.finite (h : s.ProperAttribute w) : s.Finite w := by
  obtain ⟨id, key, value, owner, added, rfl, ho, hvalue⟩ := h
  refine finite_of_treed ho (fun w hw => ?_) fun w hw => ?_
  · rw [List.mem_singleton.1 hw]
    by_cases hnull : value = .null
    · rw [hnull]
      exact finite_of_not_object (by simp)
    · exact (hvalue hnull).finite
  · rw [List.mem_singleton.1 hw]
    rfl

theorem ProperModifier.finite (h : s.ProperModifier w) : s.Finite w := by
  obtain ⟨id, c, added, name, params, hash, rfl, ho, hc⟩ := h
  obtain ⟨htreed, hworded⟩ := hc.passes
  exact finite_of_treed ho htreed hworded

theorem finite_placeholder {m parent : Value} {children : Held (List Value)}
    (ho : s.object? id = some (.node ⟨.placeholder m parent, children⟩ added)) (hm : s.Finite m) :
    s.Finite (.object id) :=
  finite_of_treed ho (fun w hw => by rw [List.mem_singleton.1 hw]; exact hm) (by simp [worded])

theorem finite_null : s.Finite .null := finite_of_not_object (by simp)

theorem finite_of_ne_null (h : v ≠ .null → s.Finite v) : s.Finite v := by
  by_cases hv : v = .null
  · rw [hv]
    exact finite_null
  · exact h hv

/-- **A proper tree is finite**, since it is built from its leaves. -/
theorem Proper.finite (h : s.Proper v) : s.Finite v := by
  induction h with
  | fragment ho hchildren _ ih => exact finite_of_items ho hchildren rfl rfl ih
  | element ho hattributes hentries hbound hbs hmodifiers hms hchildren _ ih =>
    refine finite_of_treed ho (fun w hw => ?_) fun w hw => ?_
    · rw [treed, treedItems_of_heldItems? hbound, treedItems_of_heldItems? hmodifiers,
        treedItems_of_heldItems? hchildren] at hw
      rcases List.mem_append.1 hw with hw | hw
      · rcases List.mem_append.1 hw with hw | hw
        · exact (hbs w hw).finite
        · exact (hms w hw).finite
      · exact ih w hw
    · rw [worded, wordedEntries_of_heldEntries? hattributes,
        treedEntries_of_heldEntries? hattributes, wordedItems_of_heldItems? hbound,
        wordedItems_of_heldItems? hmodifiers, wordedItems_of_heldItems? hchildren] at hw
      simp only [List.append_nil, List.cons_append, List.mem_cons, List.mem_append] at hw
      rcases hw with rfl | hw | hw
      · rfl
      · obtain ⟨e, he, rfl⟩ := List.mem_map.1 hw
        exact (hentries e he).1.unprinted
      · obtain ⟨e, he, rfl⟩ := List.mem_map.1 hw
        exact (hentries e he).2.unprinted
  | text ho | comment ho => exact finite_of_word ho rfl rfl rfl
  | unbound ho => exact finite_placeholder ho finite_null
  | inline ho hm hc =>
    obtain ⟨htreed, hworded⟩ := hc.passes
    exact finite_placeholder ho (finite_of_treed hm htreed hworded)
  | content ho hm hv => exact finite_placeholder ho (finite_of_word hm rfl rfl hv.unprinted)
  | block ho hm hc _ _ ihprimary ihalternate =>
    obtain ⟨htreed, hworded⟩ := hc.passes
    refine finite_placeholder ho (finite_of_treed hm (fun w hw => ?_) hworded)
    rw [treed, List.mem_cons, List.mem_cons] at hw
    rcases hw with rfl | rfl | hw
    · exact finite_of_ne_null ihprimary
    · exact finite_of_ne_null ihalternate
    · exact htreed w hw

end Store

/-! ### Texts of legible expressions -/

variable {kind : Fault → Prop}

theorem View.IsArray.partsText_eq {wrap : List View → View} (h : IsArray wrap) (items : List View) :
    partsText (wrap items) = partItems items := by
  rcases h with rfl | rfl <;> rfl

theorem View.IsArray.argumentsText_eq {wrap : List View → View} (h : IsArray wrap)
    (items : List View) : argumentsText (wrap items) = argumentItems items := by
  rcases h with rfl | rfl <;> rfl

namespace Store

variable {s : Store} {v w : Value}

/-- What prints nothing by itself has a text. -/
theorem Inert.plain (h : s.Inert v) : FailsOnly kind (s.shown v).plain := by
  obtain ⟨text, htext⟩ := h.text
  rw [Store.text, h.unprinted, if_neg Bool.false_ne_true] at htext
  rw [shown, h.unprinted, if_neg Bool.false_ne_true, htext]
  exact failsOnly_ok text

theorem shown_str (s : Store) (text : String) : s.shown (.str text) = .str text := rfl

/-- Named arguments as they are printed. -/
theorem entries_of_heldEntries? (h : s.heldEntries? held = some entries) (tree shown : Value → View) :
    treeObject.entries s tree shown held = .map (entries.map fun (k, v) => (shown k, tree v)) := by
  obtain rfl | ⟨v, rfl, hv⟩ := heldEntries?_eq_some h
  · rfl
  · rw [treeObject.entries, hv]

/-- Static attributes as they are printed. -/
theorem shownEntries_of_heldEntries? (h : s.heldEntries? held = some entries) (shown : Value → View) :
    treeObject.shownEntries s shown held =
      .map (entries.map fun (k, v) => (shown k, shown v)) := by
  obtain rfl | ⟨v, rfl, hv⟩ := heldEntries?_eq_some h
  · rfl
  · rw [treeObject.shownEntries, hv]

/-- The arguments of a helper have texts if each of them has. -/
theorem argumentsText_failsOnly {held : Held (List Value)} (h : s.heldItems? held = some params)
    (hparams : ∀ w ∈ params, (s.tree w).Writes kind) :
    FailsOnly kind (argumentsText (treeObject.items s s.tree s.shown held)) := by
  obtain ⟨wrap, hwrap, hitems⟩ := items_of_heldItems? h
  rw [hitems, hwrap.argumentsText_eq]
  exact argumentItems_failsOnly (List.forall_mem_map.2 hparams)

theorem hashText_failsOnly (h : s.heldEntries? held = some hash) (hkeys : ∀ e ∈ hash, s.Inert e.1)
    (hvalues : ∀ e ∈ hash, (s.tree e.2).Writes kind) :
    FailsOnly kind (hashText (treeObject.entries s s.tree s.shown held)) := by
  rw [entries_of_heldEntries? h, hashText]
  exact hashItems_failsOnly (List.forall_mem_map.2 fun e he => ⟨(hkeys e he).plain, hvalues e he⟩)

/-- **A legible expression has a text** wherever one is asked for. -/
theorem Legible.writes (h : s.Legible v) : (s.tree v).Writes kind := by
  induction h with
  | literal ho hv =>
    rw [(Legible.literal ho hv).finite.tree_object ho rfl]
    exact writes_literal hv.plain
  | path ho =>
    rw [(Legible.path ho).finite.tree_object ho rfl]
    exact writes_path (failsOnly_ok _) (failsOnly_ok _)
  | concat ho hheld hparts ih =>
    rw [(Legible.concat ho hheld hparts).finite.tree_object ho rfl]
    obtain ⟨wrap, hwrap, hitems⟩ := items_of_heldItems? hheld
    refine writes_concat ?_
    rw [hitems, hwrap.partsText_eq]
    exact partItems_failsOnly (List.forall_mem_map.2 ih)
  | subexpr ho hheld hheldHash hparams hkeys hvalues ihparams ihvalues =>
    rw [(Legible.subexpr ho hheld hheldHash hparams hkeys hvalues).finite.tree_object ho rfl]
    exact writes_subexpr (argumentsText_failsOnly hheld ihparams)
      (hashText_failsOnly hheldHash hkeys ihvalues) (failsOnly_ok _)

theorem LegibleCall.failsOnly (h : s.LegibleCall c name params hash) (kind : Fault → Prop) :
    s.shown c.name = .str name ∧
      FailsOnly kind (argumentsText (treeObject.items s s.tree s.shown c.params)) ∧
      FailsOnly kind (hashText (treeObject.entries s s.tree s.shown c.hash)) :=
  ⟨by rw [h.eq_name, shown_str],
    argumentsText_failsOnly h.heldParams fun w hw => (h.legible w hw).writes,
    hashText_failsOnly h.heldHash h.keys fun e he => (h.values e he).writes⟩

end Store

/-! ### Printing fails on unfinished parts only -/

theorem Width.pad_of_fits {n : Int} (h : fits n = true) : FailsOnly kind (ofInt n).pad := by
  have hpad := toOption_pad n
  rw [if_pos h] at hpad
  intro fault hfault
  rw [hfault] at hpad
  cases hpad

namespace Store

variable {s : Store} {v w : Value} {step indent : Int}

theorem Fits.of_holds {j : Nat} (h : s.Fits (.object id) step indent) (hw : s.Holds id j w)
    (hprinted : s.isPrinted w = true) : s.Fits w step (indent + step * j) := by
  intro k x hx hpadded
  have := h (j + k) x (.step hw hprinted hx) hpadded
  rwa [Nat.cast_add, mul_add, ← add_assoc] at this

theorem Fits.pad {n : Node} (h : s.Fits (.object id) step indent)
    (ho : s.object? id = some (.node n added)) (hkind : n.shape.kind ≠ .fragment) :
    FailsOnly kind (ofInt indent).pad := by
  have := h 0 _ (.here _) ⟨id, n, added, rfl, ho, hkind⟩
  rw [Nat.cast_zero, mul_zero, add_zero] at this
  exact pad_of_fits this

/-- A part from which something unfinished is reached. -/
def Lacks (s : Store) (v : Value) : Prop := ∃ k w, s.Reaches v k w ∧ s.Unfinished w

theorem Lacks.of_holds {j : Nat} (h : s.Lacks w) (hw : s.Holds id j w)
    (hprinted : s.isPrinted w = true) : s.Lacks (.object id) := by
  obtain ⟨k, x, hx, hunfinished⟩ := h
  exact ⟨j + k, x, .step hw hprinted hx, hunfinished⟩

theorem isPrinted_node {n : Node} (ho : s.object? id = some (.node n added)) :
    s.isPrinted (.object id) = true := by
  rw [isPrinted, asObject?_of_object? ho]

theorem isPrinted_morph {m : Morph} (ho : s.object? id = some (.morph m added)) :
    s.isPrinted (.object id) = true := by
  rw [isPrinted, asObject?_of_object? ho]

theorem Proper.isPrinted (h : s.Proper v) : s.isPrinted v = true := by
  cases h <;> exact isPrinted_node ‹_›

theorem eq_null_of_tree (h : v ≠ .null → s.Proper v) (hnull : s.tree v = .null) : v = .null := by
  by_contra hne
  exact (h hne).finite.tree_ne_null (h hne).isPrinted hnull

/-- A bound attribute is printed, or it has no value. -/
theorem ProperAttribute.failsOnly (h : s.ProperAttribute w)
    (hkind : s.Unfinished w → ∀ cause, kind (.shape cause)) (step indent : Width) :
    FailsOnly kind ((s.tree w).render step indent) := by
  have hfinite := h.finite
  obtain ⟨id, key, value, owner, added, rfl, ho, hvalue⟩ := h
  rw [hfinite.tree_object ho rfl]
  simp only [treeObject, render]
  refine attributeOf_failsOnly (fun hnull => hkind ?_) (failsOnly_ok _) (failsOnly_ok _) fun hne =>
    (hvalue ?_).writes.inline
  · -- a value that is legible has a text, and nothing has none
    by_cases hv : value = .null
    · rw [hv] at ho
      exact .attribute ho
    · have hwrites : (s.tree value).Writes fun _ => False := (hvalue hv).writes
      rw [hnull] at hwrites
      exact (hwrites.inline _ rfl).elim
  · rintro rfl
    exact hne rfl

theorem ProperModifier.failsOnly (h : s.ProperModifier w) (step indent : Width) :
    FailsOnly kind ((s.tree w).render step indent) := by
  have hfinite := h.finite
  obtain ⟨id, c, added, name, params, hash, rfl, ho, hc⟩ := h
  obtain ⟨hname, hparams, hhash⟩ := hc.failsOnly kind
  rw [hfinite.tree_object ho rfl]
  simp only [treeObject, hname, render]
  exact helperOf_failsOnly hparams hhash (failsOnly_ok _)

/-- The items of a container are printed if each of them is. -/
theorem childrenTexts_failsOnly {held : Held (List Value)} {items : List Value}
    (h : s.heldItems? held = some items) {step indent : Width}
    (hitems : ∀ w ∈ items, FailsOnly kind ((s.tree w).render step indent)) :
    FailsOnly kind (childrenTexts step indent (treeObject.items s s.tree s.shown held)) := by
  obtain ⟨wrap, hwrap, heq⟩ := items_of_heldItems? h
  rw [heq, hwrap.childrenTexts_eq]
  exact childItems_failsOnly (List.forall_mem_map.2 hitems)

theorem placeholder_failsOnly {m : ObjectId} {parent : Value} {children : Held (List Value)}
    {more : Fields} {morph : Morph}
    (ho : s.object? id = some (.node ⟨.placeholder (.object m) parent, children⟩ added))
    (hm : s.object? m = some (.morph morph more)) (hfinite : s.Finite (.object id))
    (hfits : s.Fits (.object id) step indent)
    (hmorph : s.Finite (.object m) →
      FailsOnly kind ((s.tree (.object m)).render (.ofInt step) (.ofInt indent))) :
    FailsOnly kind ((s.tree (.object id)).render (.ofInt step) (.ofInt indent)) := by
  have hfinite' : s.Finite (.object m) :=
    hfinite.of_mem ho (List.mem_append_left _ (List.mem_singleton_self _))
  have hne := hfinite'.tree_ne_null (isPrinted_morph hm)
  rw [hfinite.tree_object ho rfl]
  simp only [treeObject, render]
  exact placeholderOf_failsOnly (fun hnull => absurd hnull hne)
    (hfits.pad ho (by simp [Shape.kind])) (hmorph hfinite')

/-- What is held so many steps deeper is printed there, and lacks only what its owner lacks. -/
theorem Fits.failsOnly {j : Nat} (hfits : s.Fits (.object id) step indent) (hw : s.Holds id j w)
    (hproper : s.Proper w) (hkind : s.Lacks (.object id) → ∀ cause, kind (.shape cause))
    (ih : ∀ {indent : Int}, s.Fits w step indent → (s.Lacks w → ∀ cause, kind (.shape cause)) →
      FailsOnly kind ((s.tree w).render (.ofInt step) (.ofInt indent))) :
    FailsOnly kind ((s.tree w).render (.ofInt step) (.ofInt (indent + step * j))) :=
  ih (hfits.of_holds hw hproper.isPrinted) fun hlacks =>
    hkind (hlacks.of_holds hw hproper.isPrinted)

/-- **A proper tree is printed, unless something unfinished is reached**, if its widths can be
written: by induction on the tree. -/
theorem Proper.failsOnly (h : s.Proper v) (kind : Fault → Prop) (hfits : s.Fits v step indent)
    (hkind : s.Lacks v → ∀ cause, kind (.shape cause)) :
    FailsOnly kind ((s.tree v).render (.ofInt step) (.ofInt indent)) := by
  induction h generalizing indent with
  | @fragment id children added kids ho hchildren hkids ih =>
    rw [(Proper.fragment ho hchildren hkids).finite.tree_object ho rfl]
    simp only [treeObject, render]
    refine (childrenTexts_failsOnly hchildren fun w hw => ?_).bind fun _ => failsOnly_ok _
    have hdeeper := hfits.failsOnly (.child ho hchildren hw) (hkids w hw) hkind (ih w hw)
    rwa [Nat.cast_zero, mul_zero, add_zero] at hdeeper
  | @element id tag ns attributes bound modifiers children added entries bs ms kids ho hattributes
      hentries hbound hbs hmodifiers hms hchildren hkids ih =>
    rw [(Proper.element ho hattributes hentries hbound hbs hmodifiers hms hchildren
      hkids).finite.tree_object ho rfl]
    simp only [treeObject, shown_str, render]
    refine elementOf_failsOnly ?_ (childrenTexts_failsOnly hbound fun w hw => ?_)
      (childrenTexts_failsOnly hmodifiers fun w hw => (hms w hw).failsOnly _ _)
      (innerOf_failsOnly ?_ (fun inner hinner => ?_) _) (hfits.pad ho (by simp [Shape.kind]))
      (failsOnly_ok _)
    · rw [shownEntries_of_heldEntries? hattributes, attributesText]
      exact attributeItems_failsOnly (List.forall_mem_map.2 fun e he =>
        ⟨(hentries e he).1.plain, (hentries e he).2.plain⟩)
    · -- an attribute without a value is itself what is unfinished
      refine (hbs w hw).failsOnly (fun hunfinished => hkind ⟨0, w, .bound ?_, hunfinished⟩) _ _
      obtain ⟨i, key, value, owner, added', rfl, hi, -⟩ := hbs w hw
      exact ⟨_, _, _, _, _, _, _, bs, ho, hbound, hw, by rw [asAttribute?, asObject?_of_object? hi]; rfl⟩
    · rw [deeper_ofInt]
      exact failsOnly_ok _
    · rw [deeper_ofInt] at hinner
      cases hinner
      refine childrenTexts_failsOnly hchildren fun w hw => ?_
      have hdeeper := hfits.failsOnly (.nested ho hchildren hw) (hkids w hw) hkind (ih w hw)
      rwa [Nat.cast_one, mul_one] at hdeeper
  | text ho =>
    rw [(Proper.text ho).finite.tree_object ho rfl]
    exact textOf_failsOnly (hfits.pad ho (by simp [Shape.kind])) (failsOnly_ok _)
  | comment ho =>
    rw [(Proper.comment ho).finite.tree_object ho rfl]
    exact commentOf_failsOnly (hfits.pad ho (by simp [Shape.kind])) (failsOnly_ok _)
  | unbound ho =>
    rw [(Proper.unbound ho).finite.tree_object ho rfl]
    exact failsOnly_error (hkind ⟨0, _, .here _, .placeholder ho⟩ _)
  | inline ho hm hc =>
    refine placeholder_failsOnly ho hm (Proper.inline ho hm hc).finite hfits fun hfinite => ?_
    obtain ⟨hname, hparams, hhash⟩ := hc.failsOnly kind
    rw [hfinite.tree_object hm rfl]
    simp only [treeObject, hname, render]
    exact helperOf_failsOnly hparams hhash (failsOnly_ok _)
  | content ho hm hv =>
    refine placeholder_failsOnly ho hm (Proper.content ho hm hv).finite hfits fun hfinite => ?_
    rw [hfinite.tree_object hm rfl]
    exact (primitive_failsOnly hv.plain).bind fun _ => failsOnly_ok _
  | @block id m parent primary alternate children added more c name params hash ho hm hc hprimary
      halternate ihprimary ihalternate =>
    refine placeholder_failsOnly ho hm (Proper.block ho hm hc hprimary halternate).finite hfits
      fun hfinite => ?_
    have hmorph : s.Holds id 0 (.object m) := .morph ho
    have hfits' := hfits.of_holds hmorph (isPrinted_morph hm)
    rw [Nat.cast_zero, mul_zero, add_zero] at hfits'
    have hkind' : s.Lacks (.object m) → ∀ cause, kind (.shape cause) := fun hlacks =>
      hkind (hlacks.of_holds hmorph (isPrinted_morph hm))
    obtain ⟨hname, hparams, hhash⟩ := hc.failsOnly kind
    rw [hfinite.tree_object hm rfl]
    simp only [treeObject, hname, render]
    refine blockOf_failsOnly (fun hnull => hkind' ⟨0, _, .here _, ?_⟩) (failsOnly_ok _)
      (hfits.pad ho (by simp [Shape.kind])) ?_ (failsOnly_ok _)
      (callOf_failsOnly hparams hhash (failsOnly_ok _)) (fun inner hinner hne => ?_)
      fun inner hinner hne => ?_
    · rw [eq_null_of_tree hprimary hnull] at hm
      exact .block hm
    · rw [deeper_ofInt]
      exact failsOnly_ok _
    · rw [deeper_ofInt] at hinner
      cases hinner
      have hne' : primary ≠ .null := fun hnull => hne (by rw [hnull]; rfl)
      have hdeeper := hfits'.failsOnly (.primary hm) (hprimary hne') hkind' (ihprimary hne')
      rwa [Nat.cast_one, mul_one] at hdeeper
    · rw [deeper_ofInt] at hinner
      cases hinner
      have hne' : alternate ≠ .null := fun hnull => hne (by rw [hnull]; rfl)
      have hdeeper := hfits'.failsOnly (.alternate hm) (halternate hne') hkind' (ihalternate hne')
      rwa [Nat.cast_one, mul_one] at hdeeper

/-! ### What is printed is finished -/

theorem Unfinished.not_printed (h : s.Unfinished w) (hfinite : s.Finite w) (step indent : Width)
    (text : String) : (s.tree w).render step indent ≠ .ok text := by
  intro htext
  cases h with
  | placeholder ho =>
    rw [hfinite.tree_object ho rfl] at htext
    cases htext
  | «attribute» ho =>
    rw [hfinite.tree_object ho rfl] at htext
    simp only [treeObject, render] at htext
    exact (attributeOf_eq_ok_iff.1 htext).1 rfl
  | block ho =>
    rw [hfinite.tree_object ho rfl] at htext
    simp only [treeObject, render] at htext
    obtain ⟨_, -, htext⟩ := bind_eq_ok htext
    cases htext

theorem fits_of_pad {n : Int} {margin : String} (h : (ofInt n).pad = .ok margin) :
    fits n = true := by
  have hpad := toOption_pad n
  by_contra hfits
  rw [h, if_neg hfits] at hpad
  cases hpad

/-- A node that is printed at its indentation is printed where this can be written. -/
theorem Padded.fits (h : s.Padded w) (hfinite : s.Finite w)
    (htext : (s.tree w).render (.ofInt step) (.ofInt indent) = .ok text) :
    fits indent = true := by
  obtain ⟨id, ⟨shape, children⟩, added, rfl, ho, hkind⟩ := h
  rw [hfinite.tree_object ho rfl] at htext
  cases shape with
  | fragment => exact absurd rfl hkind
  | element =>
    simp only [treeObject, render] at htext
    obtain ⟨_, _, _, _, _, _, _, _, margin, hmargin, -⟩ := elementOf_eq_ok_iff.1 htext
    exact fits_of_pad hmargin
  | text | comment =>
    simp only [treeObject, render] at htext
    obtain ⟨margin, hmargin, -⟩ := bind_eq_ok htext
    exact fits_of_pad hmargin
  | placeholder =>
    simp only [treeObject, render] at htext
    obtain ⟨-, margin, hmargin, -⟩ := placeholderOf_eq_ok_iff.1 htext
    exact fits_of_pad hmargin

/-- **A tree that is printed is finished**, and its widths can be written. -/
theorem Finite.finished_of_printed (hfinite : s.Finite v)
    (htext : (s.tree v).render (.ofInt step) (.ofInt indent) = .ok text) :
    ¬ s.Lacks v ∧ s.Fits v step indent := by
  constructor
  · rintro ⟨k, w, hw, hunfinished⟩
    obtain ⟨_, piece, _, hpiece, -⟩ := hw.printed hfinite htext
    exact hunfinished.not_printed (hw.finite hfinite) _ _ piece hpiece
  · intro k w hw hpadded
    obtain ⟨_, piece, _, hpiece, -⟩ := hw.printed hfinite htext
    exact hpadded.fits (hw.finite hfinite) hpiece

end Store

theorem printAt_ok_iff : Method.printAt v (.int indent) (stepValue step) s = .ok (.str text) s ↔
      (s.tree v).render (.ofInt (stepAmount step)) (.ofInt indent) = .ok text := by
  rw [printAt_eq]
  cases (s.tree v).render (.ofInt (stepAmount step)) (.ofInt indent) with
  | ok found => simp
  | error fault => simp

theorem printAt_error {t : Store} {fault : Fault}
    (h : Method.printAt v (.int indent) (stepValue step) s = .error fault t) :
    (s.tree v).render (.ofInt (stepAmount step)) (.ofInt indent) = .error fault := by
  rw [printAt_eq] at h
  cases hrender : (s.tree v).render (.ofInt (stepAmount step)) (.ofInt indent) with
  | ok found => rw [hrender] at h; cases h
  | error found => rw [hrender] at h; cases h; rfl

/-- Recovering a text is recovering a tree and printing it. -/
theorem Recover.artifact_eq_ok {t : Store} {r : Recovered}
    (h : artifact (stepValue step) v s = .ok r t) :
    ∃ root, load v s = .ok ⟨r.revision, r.format, root⟩ t ∧
      Method.printAt root (.int 0) (stepValue step) t = .ok (.str r.template) t := by
  unfold artifact at h
  obtain ⟨⟨revision, format, root⟩, u, hload, h⟩ := Act.ok_of_bind h
  rw [Act.bind_store] at h
  cases htext : (u.tree root).toText (.int 0) (u.view (stepValue step)) with
  | error fault =>
    rw [htext] at h
    cases h
  | ok text =>
    rw [htext] at h
    cases h
    refine ⟨root, hload, printAt_ok_iff.2 ?_⟩
    rw [toText, effective_stepValue] at htext
    exact htext

/-- **A tree is printed exactly if it is finished** and its widths can be written; what else can go
wrong with a tree whose names are texts is a fault of shape. So the text of a recovered template leaves
out nothing that is in its tree. -/
theorem prints_iff_finished :
    (∀ (s : Store) (v : Value), s.Proper v → ∀ (indent : Int) (step : Option Int),
      ((∃ text, Method.printAt v (.int indent) (stepValue step) s = .ok (.str text) s) ↔
        ¬ s.Lacks v ∧ s.Fits v (stepAmount step) indent) ∧
      (s.Fits v (stepAmount step) indent → ∀ fault t,
        Method.printAt v (.int indent) (stepValue step) s = .error fault t →
          ∃ cause, fault = .shape cause)) ∧
    ∀ (s t : Store) (v : Value) (step : Option Int) (r : Recovered),
      Recover.artifact (stepValue step) v s = .ok r t →
        ∃ root, Recover.load v s = .ok ⟨r.revision, r.format, root⟩ t ∧
          (t.Finite root → ∀ k w, t.Reaches root k w → ¬ t.Unfinished w ∧
            ∃ before piece after,
              Method.printAt w (.int (stepAmount step * k)) (stepValue step) t = .ok (.str piece) t ∧
                r.template = before ++ piece ++ after) := by
  refine ⟨fun s v hproper indent step => ⟨⟨?_, ?_⟩, ?_⟩, fun s t v step r hartifact => ?_⟩
  · rintro ⟨text, htext⟩
    exact hproper.finite.finished_of_printed (printAt_ok_iff.1 htext)
  · rintro ⟨hfinished, hfits⟩
    cases htext : (s.tree v).render (.ofInt (stepAmount step)) (.ofInt indent) with
    | ok text => exact ⟨text, printAt_ok_iff.2 htext⟩
    | error fault =>
      -- a shape is refused only in an unfinished tree, so no kind of fault is left
      exact (hproper.failsOnly (fun _ => False) hfits
        (fun hlacks => absurd hlacks hfinished) fault htext).elim
  · intro hfits fault t herror
    exact hproper.failsOnly (fun fault => ∃ cause, fault = .shape cause) hfits
      (fun _ cause => ⟨cause, rfl⟩) fault (printAt_error herror)
  · obtain ⟨root, hload, hprint⟩ := artifact_eq_ok hartifact
    refine ⟨root, hload, fun hfinite k w hw => ?_⟩
    have htext := printAt_ok_iff.1 hprint
    obtain ⟨before, piece, after, hpiece, hwhole⟩ := hw.printed hfinite htext
    rw [zero_add] at hpiece
    exact ⟨fun hunfinished => hunfinished.not_printed (hw.finite hfinite) _ _ piece hpiece,
      before, piece, after, printAt_ok_iff.2 hpiece, hwhole⟩

/-- A placeholder without a morph, and a template that consists of it and binds it to a content. -/
def placeholderStore : Store where
  objects := #[
    .node ⟨.placeholder .null .null, .own []⟩ [],
    .list [.object ⟨0⟩],
    .function (.loader (.object ⟨0⟩)) [],
    .function (.loader (.object ⟨1⟩)) [],
    .record [("revision", .str "Ember@2.0.0")],
    .list [.str "content", .str "x"],
    .list [.object ⟨5⟩],
    .list [],
    .record [("meta", .object ⟨4⟩), ("buildFragment", .object ⟨2⟩),
      ("buildRenderNodes", .object ⟨3⟩), ("statements", .object ⟨6⟩), ("templates", .object ⟨7⟩)]]

/-- The content to which a placeholder is bound. -/
def Store.contentAt? (s : Store) (v : Value) : Option Value :=
  match s.asObject? v with
  | some (_, .node ⟨.placeholder m _, _⟩ _) =>
    match s.asObject? m with
    | some (_, .morph (.content v) _) => some v
    | _ => none
  | _ => none

theorem Store.finite_of_contentAt? (h : s.contentAt? v = some (.str text)) : s.Finite v := by
  unfold contentAt? at h
  split at h
  · next hv =>
    split at h
    · next hm =>
      cases h
      obtain ⟨rfl, ho⟩ := asObject?_eq_some hv
      obtain ⟨rfl, hmorph⟩ := asObject?_eq_some hm
      exact finite_placeholder ho (finite_of_word hmorph rfl rfl rfl)
    · cases h
  · cases h

/-- The placeholder cannot be printed before it is bound, and afterwards it is in the text. -/
theorem prints_iff_finished_placeholderStore :
    (∀ text, Method.printAt (.object ⟨0⟩) (.int 0) .null placeholderStore ≠ .ok (.str text) placeholderStore) ∧
      ∃ r t root, Recover.load (.object ⟨8⟩) placeholderStore = .ok ⟨r.revision, r.format, root⟩ t ∧
        Recover.artifact .null (.object ⟨8⟩) placeholderStore = .ok r t ∧ ¬ t.Unfinished root := by
  have hobject : placeholderStore.object? ⟨0⟩ = some (.node ⟨.placeholder .null .null, .own []⟩ []) := rfl
  constructor
  · intro text htext
    have hprints := (prints_iff_finished.1 placeholderStore _ (.unbound hobject) 0 none).1.1 ⟨text, htext⟩
    exact hprints.1 ⟨0, _, .here _, .placeholder hobject⟩
  · have hrun : (match load (.object ⟨8⟩) placeholderStore with
        | .ok loaded t => (t.contentAt? loaded.root, true)
        | .error _ _ => (none, false)) = (some (.str "x"), true) := by
      decide +kernel
    have hartifact : (match artifact .null (.object ⟨8⟩) placeholderStore with
        | .ok _ _ => true
        | .error _ _ => false) = true := by
      decide +kernel
    cases h : artifact (stepValue none) (.object ⟨8⟩) placeholderStore with
    | error fault t =>
      have h' : artifact .null (.object ⟨8⟩) placeholderStore = .error fault t := h
      rw [h'] at hartifact
      cases hartifact
    | ok r t =>
      obtain ⟨root, hload, hreached⟩ := prints_iff_finished.2 placeholderStore t _ none r h
      rw [hload] at hrun
      have hfinite := finite_of_contentAt? (congrArg Prod.fst hrun)
      exact ⟨r, t, root, hload, h, (hreached hfinite 0 root (.here root)).1⟩

/-- Three trees without anything unfinished: a text, an element with a static attribute that is a
placeholder, and a placeholder bound to a helper with a named argument whose name is one. -/
def strayStore : Store where
  objects := #[
    .node ⟨.text (.str "a"), .own []⟩ [],
    .node ⟨.placeholder .null .null, .own []⟩ [],
    .node ⟨.element (.str "p") .null (.own [(.str "k", .object ⟨1⟩)]) (.own []) (.own []), .own []⟩ [],
    .expression (.literal (.int 1)),
    .morph (.inline ⟨.str "h", .own [], .own [(.object ⟨1⟩, .object ⟨3⟩)]⟩) [],
    .node ⟨.placeholder (.object ⟨4⟩) .null, .own []⟩ []]

/-- Being finished is not enough: a width below the numbers of 64 bits cannot be written, and a
placeholder among the static attributes or the names of arguments is printed with them. -/
theorem finished_not_printed :
    Method.printAt (.object ⟨0⟩) (.int (-2 ^ 63 - 1)) .null strayStore = .error .overflow strayStore ∧
      Method.printAt (.object ⟨2⟩) (.int 0) .null strayStore =
        .error (.shape .unboundPlaceholder) strayStore ∧
      Method.printAt (.object ⟨5⟩) (.int 0) .null strayStore =
        .error (.shape .unboundPlaceholder) strayStore ∧
      ¬ strayStore.Lacks (.object ⟨0⟩) ∧ ¬ strayStore.Lacks (.object ⟨2⟩) ∧
        ¬ strayStore.Lacks (.object ⟨5⟩) := by
  have htext : strayStore.object? ⟨0⟩ = some (.node ⟨.text (.str "a"), .own []⟩ []) := rfl
  have helement : strayStore.object? ⟨2⟩ = some (.node ⟨.element (.str "p") .null
    (.own [(.str "k", .object ⟨1⟩)]) (.own []) (.own []), .own []⟩ []) := rfl
  have hinline : strayStore.object? ⟨4⟩ =
    some (.morph (.inline ⟨.str "h", .own [], .own [(.object ⟨1⟩, .object ⟨3⟩)]⟩) []) := rfl
  have hbound : strayStore.object? ⟨5⟩ =
    some (.node ⟨.placeholder (.object ⟨4⟩) .null, .own []⟩ []) := rfl
  refine ⟨rfl, rfl, rfl, ?_, ?_, ?_⟩
  · rintro ⟨k, w, hw, hunfinished⟩
    cases hw with
    | here => cases hunfinished <;> simp_all
    | bound hw => obtain ⟨_, _, _, _, _, _, _, _, ho, -⟩ := hw; simp_all
    | step hw => cases hw <;> simp_all
  · rintro ⟨k, w, hw, hunfinished⟩
    cases hw with
    | here => cases hunfinished <;> simp_all
    | bound hw =>
      obtain ⟨_, _, _, _, _, _, _, ws, ho, hws, hmem, -⟩ := hw
      cases helement.symm.trans ho
      cases hws
      cases hmem
    | step hw =>
      cases hw with
      | nested ho hkids hmem =>
        cases helement.symm.trans ho
        cases hkids
        cases hmem
      | child ho | morph ho | primary ho | alternate ho => cases helement.symm.trans ho
  · rintro ⟨k, w, hw, hunfinished⟩
    cases hw with
    | here => cases hunfinished <;> simp_all
    | bound hw => obtain ⟨_, _, _, _, _, _, _, _, ho, -⟩ := hw; simp_all
    | step hw _ hrest =>
      cases hw with
      | morph ho =>
        cases hbound.symm.trans ho
        cases hrest with
        | here => cases hunfinished <;> simp_all
        | bound hw => obtain ⟨_, _, _, _, _, _, _, _, ho, -⟩ := hw; simp_all
        | step hw => cases hw <;> simp_all
      | child ho | nested ho | primary ho | alternate ho => cases hbound.symm.trans ho

end TemplateRecovery
