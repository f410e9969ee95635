import TemplateRecovery.Options.Basic
import TemplateRecovery.Proofs.Refusal

/-!
# Reading options entry by entry

A mapping of options is read in order: the option that a key names is looked up, it must not have been
given before, and its value is checked. What comes out depends only on which option has which value.
What goes wrong is decided by the first entry that is at fault.

* `Options.set_ok_iff` and `Options.set_error_iff` say what one value does.
* `Options.ofEntries_ok_iff` and `Options.ofEntries_error_iff` say what a sequence of entries does.
* `options_of_mapping` is the result.
-/

namespace TemplateRecovery

open Store

/-- Entries whose keys are strings, as a mapping holds them. -/
def stringKeyed (es : List (String × Value)) : Entries := es.map fun e => (.str e.1, e.2)

namespace Options

variable {s : Store} {path : List String} {v : Value} {o o' : Options} {f : Field} {e : Fault}

/-! ### What a value can be -/

/-- The strings that a value lists: none for null, a string alone, or those of an array. -/
def PathsAre (s : Store) (v : Value) (paths : List String) : Prop :=
  v = .null ∧ paths = [] ∨ (∃ text, v = .str text ∧ paths = [text]) ∨
    s.array? v = some (paths.map .str)

/-- The globals that a value names: none for null, or the entries of a mapping, inserted in order under
the texts of their keys. -/
def ContextIs (s : Store) (v : Value) (context : List (String × Value)) : Prop :=
  v = .null ∧ context = [] ∨ ∃ entries, ∃ names : List String, s.entries? v = some entries ∧
      entries.map (s.text ·.1) = names.map .ok ∧
      context = Assoc.ofPairs (· == ·) (names.zip (entries.map Prod.snd))

/-- The value is the one that the options have in a field. -/
def Holds (s : Store) (o : Options) : Field → Value → Prop
  | .context, v => ContextIs s v o.context
  | .requirePaths, v => PathsAre s v o.requirePaths
  | .globalPaths, v => PathsAre s v o.globalPaths
  | .indent, v => v = .int o.indent

/-- The values that an option can have. -/
def Accepts (s : Store) : Field → Value → Prop
  | .context, v => v = .null ∨
    ∃ entries, s.entries? v = some entries ∧ ∀ e ∈ entries, ∃ name, s.text e.1 = .ok name
  | .requirePaths, v | .globalPaths, v => v = .null ∨ (∃ text, v = .str text) ∨
    ∃ items, s.array? v = some items ∧ ∀ x ∈ items, ∃ text, x = .str text
  | .indent, v => ∃ n, v = .int n ∧ 0 ≤ n

/-- What is wrong with paths: they are no array, or the first item that is no string. -/
def PathsRefused (s : Store) (path : List String) (v : Value) (e : Fault) : Prop :=
  v ≠ .null ∧ (∀ text, v ≠ .str text) ∧ s.array? v = none ∧
      e = .options (.notPathList (s.view v)) path ∨
    ∃ (before : List String) (x : Value) (after : List Value),
      s.array? v = some (before.map .str ++ x :: after) ∧ (∀ text, x ≠ .str text) ∧
      e = .options (.notText (s.view x)) (path ++ [toString before.length])

/-- What is wrong with a value under a path: it is of another kind, an item of an array is no string,
or a key of the globals has no text. A negative step is told by its digits, so it can have too many. -/
def Refused (s : Store) (path : List String) : Field → Value → Fault → Prop
  | .context, v, e =>
    v ≠ .null ∧ s.entries? v = none ∧ e = .options (.notMapping (s.view v)) path ∨
      ∃ before k x after, s.entries? v = some (before ++ (k, x) :: after) ∧
        (∀ p ∈ before, ∃ name, s.text p.1 = .ok name) ∧ s.text k = .error e
  | .requirePaths, v, e | .globalPaths, v, e => PathsRefused s path v e
  | .indent, v, e => (∀ n, v ≠ .int n) ∧ e = .options (.notInt (s.view v)) path ∨
      ∃ n, v = .int n ∧ n < 0 ∧ e = if isSpelled n then .options (.negative n) path else .longNumber

/-- Two sets of options have the same value in a field. -/
def AgreeAt (o o' : Options) : Field → Prop
  | .context => o.context = o'.context
  | .requirePaths => o.requirePaths = o'.requirePaths
  | .globalPaths => o.globalPaths = o'.globalPaths
  | .indent => o.indent = o'.indent

theorem AgreeAt.symm (h : AgreeAt o o' f) : AgreeAt o' o f := by
  cases f <;> exact Eq.symm h

theorem AgreeAt.trans {o'' : Options} (h : AgreeAt o o' f) (h' : AgreeAt o' o'' f) :
    AgreeAt o o'' f := by
  cases f <;> exact Eq.trans h h'

theorem eq_of_agreeAt (h : ∀ f, AgreeAt o o' f) : o = o' := by
  have hcontext : o.context = o'.context := h .context
  have hrequire : o.requirePaths = o'.requirePaths := h .requirePaths
  have hglobal : o.globalPaths = o'.globalPaths := h .globalPaths
  have hindent : o.indent = o'.indent := h .indent
  cases o
  cases o'
  simp_all

theorem Holds.congr (h : Holds s o f v) (ho : AgreeAt o o' f) : Holds s o' f v := by
  cases f <;> simp only [Holds, AgreeAt] at h ho ⊢ <;> rwa [← ho]

/-- Options can take a field from one set and the other fields from another. -/
theorem exists_agreeAt (o o' : Options) (f : Field) :
    ∃ o₁, AgreeAt o₁ o' f ∧ ∀ g, g ≠ f → AgreeAt o₁ o g := by
  cases f with
  | context => exact ⟨{ o with context := o'.context }, rfl, fun g hg => by cases g <;> trivial⟩
  | requirePaths =>
    exact ⟨{ o with requirePaths := o'.requirePaths }, rfl, fun g hg => by cases g <;> trivial⟩
  | globalPaths =>
    exact ⟨{ o with globalPaths := o'.globalPaths }, rfl, fun g hg => by cases g <;> trivial⟩
  | indent => exact ⟨{ o with indent := o'.indent }, rfl, fun g hg => by cases g <;> trivial⟩

/-! ### Reading one value -/

theorem refuse_negative {α : Type} (n : Int) : (refuse (.negative n) path : Except Fault α) =
    .error (if isSpelled n then .options (.negative n) path else .longNumber) := by
  by_cases h : isSpelled n <;>
    simp [refuse, Fault.ofOption, OptionProblem.shown, Fault.showing, View.repr?, h]

theorem namedEntries_ok_iff {entries : Entries} {done context : List (String × Value)} :
    namedEntries s entries done = .ok context ↔
      ∃ names : List String, entries.map (s.text ·.1) = names.map .ok ∧
        context = (names.zip (entries.map Prod.snd)).foldl (fun done p => Assoc.set p.1 p.2 done) done := by
  induction entries generalizing done with
  | nil => simp [namedEntries, eq_comm]
  | cons p rest ih =>
    cases htext : s.text p.1 with
    | error e => simp [namedEntries, htext, bind, Except.bind, List.map_eq_cons_iff, eq_comm]
    | ok name =>
      simp only [namedEntries, htext, bind, Except.bind, ih, List.map_cons]
      constructor
      · rintro ⟨names, hnames, rfl⟩
        exact ⟨name :: names, by rw [hnames, List.map_cons], rfl⟩
      · rintro ⟨names, hnames, rfl⟩
        obtain ⟨_, names, rfl, ⟨⟩, hrest⟩ := List.map_eq_cons_iff.1 hnames.symm
        exact ⟨names, hrest.symm, rfl⟩

theorem namedEntries_error_iff {entries : Entries} {done : List (String × Value)} :
    namedEntries s entries done = .error e ↔
      ∃ before k x after, entries = before ++ (k, x) :: after ∧
        (∀ p ∈ before, ∃ name, s.text p.1 = .ok name) ∧ s.text k = .error e := by
  induction entries generalizing done with
  | nil => simp [namedEntries]
  | cons p rest ih =>
    constructor
    · intro h
      cases htext : s.text p.1 with
      | error e' =>
        rw [namedEntries, htext] at h
        cases h
        exact ⟨[], p.1, p.2, rest, rfl, by simp, htext⟩
      | ok name =>
        rw [namedEntries, htext] at h
        obtain ⟨before, k, x, after, rfl, hbefore, hk⟩ := ih.1 h
        exact ⟨p :: before, k, x, after, rfl, List.forall_mem_cons.2 ⟨⟨name, htext⟩, hbefore⟩, hk⟩
    · rintro ⟨_ | ⟨q, before⟩, k, x, after, heq, hbefore, hk⟩ <;> cases heq
      · simp [namedEntries, hk, bind, Except.bind]
      · obtain ⟨⟨name, htext⟩, hbefore⟩ := List.forall_mem_cons.1 hbefore
        rw [namedEntries, htext]
        exact ih.2 ⟨before, k, x, after, rfl, hbefore, hk⟩

theorem contextOf_ok_iff {context : List (String × Value)} :
    contextOf s path v = .ok context ↔ ContextIs s v context := by
  fun_cases contextOf s path v with
  | case1 => simp [ContextIs, entries?, asObject?, eq_comm]
  | case2 _ entries hmap hnull =>
    simp [ContextIs, hmap, Not.intro hnull, namedEntries_ok_iff, Assoc.ofPairs]
  | case3 _ hnull hmap => simp [ContextIs, hmap, Not.intro hnull, refuse]

theorem contextOf_error_iff : contextOf s path v = .error e ↔ Refused s path .context v e := by
  fun_cases contextOf s path v with
  | case1 => simp [Refused, entries?, asObject?]
  | case2 _ entries hmap hnull => simp [Refused, hmap, namedEntries_error_iff]
  | case3 _ hnull hmap =>
    simpa [Refused, hmap, Not.intro hnull, refuse, Fault.ofOption, OptionProblem.shown]
      using eq_comm

theorem stringItems_ok_iff {i : Nat} {items : List Value} {texts : List String} :
    stringItems s path i items = .ok texts ↔ items = texts.map .str := by
  fun_induction stringItems s path i items generalizing texts with
  | case1 => simp [eq_comm]
  | case2 i text rest ih =>
    simp only [bind_eq_ok_iff, ih]
    constructor
    · rintro ⟨_, rfl, ⟨⟩⟩
      rfl
    · intro heq
      obtain ⟨_, texts, rfl, ⟨⟩, hrest⟩ := List.map_eq_cons_iff.1 heq.symm
      exact ⟨texts, hrest.symm, rfl⟩
  | case3 i x rest hx =>
    simp only [refuse, reduceCtorEq, false_iff]
    intro heq
    obtain ⟨text, -, -, htext, -⟩ := List.map_eq_cons_iff.1 heq.symm
    exact hx text htext.symm

theorem bind_pure_eq_error_iff {α β : Type} {x : Except Fault α} {F : α → β} :
    (do let a ← x; return F a) = .error e ↔ x = .error e := by
  cases x <;> simp [bind, Except.bind, pure, Except.pure]

theorem stringItems_error_iff {i : Nat} {items : List Value} :
    stringItems s path i items = .error e ↔
      ∃ (before : List String) (x : Value) (after : List Value),
        items = before.map .str ++ x :: after ∧ (∀ text, x ≠ .str text) ∧
        e = .options (.notText (s.view x)) (path ++ [toString (i + before.length)]) := by
  fun_induction stringItems s path i items with
  | case1 => simp
  | case2 i text rest ih =>
    rw [bind_pure_eq_error_iff, ih]
    constructor
    · rintro ⟨before, x, after, rfl, hx, rfl⟩
      exact ⟨text :: before, x, after, rfl, hx, by simp [Nat.add_assoc, Nat.add_comm 1]⟩
    · rintro ⟨_ | ⟨_, before⟩, x, after, heq, hx, rfl⟩ <;> cases heq
      · exact absurd rfl (hx text)
      · exact ⟨before, x, after, rfl, hx, by simp [Nat.add_assoc, Nat.add_comm 1]⟩
  | case3 i x rest hx =>
    simp only [refuse]
    constructor
    · rintro ⟨⟩
      exact ⟨[], x, rest, rfl, hx, rfl⟩
    · rintro ⟨_ | ⟨text, before⟩, y, after, heq, hy, rfl⟩ <;> cases heq
      · rfl
      · exact absurd rfl (hx text)

theorem pathsOf_ok_iff {paths : List String} :
    pathsOf s path v = .ok paths ↔ PathsAre s v paths := by
  fun_cases pathsOf s path v with
  | case1 => simp [PathsAre, array?, asObject?, eq_comm]
  | case2 text => simp [PathsAre, array?, asObject?, eq_comm]
  | case3 _ items harray hnull hstr =>
    simp [PathsAre, harray, stringItems_ok_iff, Not.intro hnull, fun text => Not.intro (hstr text)]
  | case4 _ hnull hstr harray =>
    simp [PathsAre, harray, refuse, Not.intro hnull, fun text => Not.intro (hstr text)]

theorem pathsOf_error_iff : pathsOf s path v = .error e ↔ PathsRefused s path v e := by
  fun_cases pathsOf s path v with
  | case1 => simp [PathsRefused, array?, asObject?]
  | case2 text => simp [PathsRefused, array?, asObject?]
  | case3 _ items harray hnull hstr => simp [PathsRefused, harray, stringItems_error_iff]
  | case4 _ hnull hstr harray =>
    simpa [PathsRefused, harray, Not.intro hnull, fun text => Not.intro (hstr text),
      refuse, Fault.ofOption, OptionProblem.shown] using eq_comm

theorem indentOf_ok_iff {n : Nat} : indentOf s path v = .ok n ↔ v = .int n := by
  cases v with
  | int m =>
    simp only [indentOf, Value.int.injEq]
    split_ifs with hm <;> simp [refuse] <;> omega
  | _ => simp [indentOf, refuse]

theorem indentOf_error_iff : indentOf s path v = .error e ↔ Refused s path .indent v e := by
  cases v with
  | int m =>
    simp only [indentOf, Refused, refuse_negative]
    by_cases hm : m < 0
    · simpa [hm] using eq_comm
    · simp [hm]
  | _ => simpa [indentOf, Refused, refuse, Fault.ofOption, OptionProblem.shown] using eq_comm

/-- Setting an option to a value gives the options that hold it and are otherwise as before. -/
theorem set_ok_iff : o.set s path f v = .ok o' ↔ Holds s o' f v ∧ ∀ g, g ≠ f → AgreeAt o' o g := by
  cases f <;> simp only [set, bind_eq_ok_iff, contextOf_ok_iff, pathsOf_ok_iff, indentOf_ok_iff] <;>
    constructor
  any_goals
    rintro ⟨a, ha, ⟨⟩⟩
    exact ⟨ha, fun g hg => by cases g <;> trivial⟩
  all_goals
    rintro ⟨ha, hrest⟩
    refine ⟨_, ha, congrArg Except.ok (eq_of_agreeAt fun g => ?_)⟩
    have hg := hrest g
    cases g <;> first | rfl | exact Eq.symm (hg (by simp))

theorem set_error_iff : o.set s path f v = .error e ↔ Refused s path f v e := by
  cases f with
  | context => exact bind_pure_eq_error_iff.trans contextOf_error_iff
  | requirePaths | globalPaths => exact bind_pure_eq_error_iff.trans pathsOf_error_iff
  | indent => exact bind_pure_eq_error_iff.trans indentOf_error_iff

/-- A list of things that all come from `f` comes from a list. -/
theorem forall_mem_iff_exists_map {α β : Type} {f : α → β} {l : List β} :
    (∀ x ∈ l, ∃ a, x = f a) ↔ ∃ as : List α, l = as.map f := by
  simpa [eq_comm] using (Set.ext_iff.1 (Set.range_list_map f) l).symm

/-- An option accepts a value if some options hold it. -/
theorem accepts_iff : Accepts s f v ↔ ∃ o, Holds s o f v := by
  have hpaths : (v = .null ∨ (∃ text, v = .str text) ∨
      ∃ items, s.array? v = some items ∧ ∀ x ∈ items, ∃ text, x = .str text) ↔
      ∃ paths, PathsAre s v paths := by
    simp only [forall_mem_iff_exists_map, PathsAre]
    constructor
    · rintro (rfl | ⟨text, rfl⟩ | ⟨_, harray, paths, rfl⟩)
      · exact ⟨[], .inl ⟨rfl, rfl⟩⟩
      · exact ⟨[text], .inr (.inl ⟨text, rfl, rfl⟩)⟩
      · exact ⟨paths, .inr (.inr harray)⟩
    · rintro ⟨paths, ⟨rfl, -⟩ | ⟨text, rfl, -⟩ | harray⟩
      · exact .inl rfl
      · exact .inr (.inl ⟨text, rfl⟩)
      · exact .inr (.inr ⟨_, harray, paths, rfl⟩)
  cases f with
  | context =>
    have hnames (entries : Entries) : (∀ e ∈ entries, ∃ name, s.text e.1 = .ok name) ↔
        ∃ names : List String, entries.map (s.text ·.1) = names.map .ok := by
      rw [← forall_mem_iff_exists_map, List.forall_mem_map]
    simp only [Accepts, Holds, ContextIs, hnames]
    constructor
    · rintro (rfl | ⟨entries, hmap, names, h⟩)
      · exact ⟨{}, .inl ⟨rfl, rfl⟩⟩
      · exact ⟨{ context := _ }, .inr ⟨entries, names, hmap, h, rfl⟩⟩
    · rintro ⟨o, ⟨rfl, -⟩ | ⟨entries, names, hmap, h, -⟩⟩
      · exact .inl rfl
      · exact .inr ⟨entries, hmap, names, h⟩
  | requirePaths =>
    exact hpaths.trans ⟨fun h => h.elim fun paths h => ⟨{ requirePaths := paths }, h⟩,
      fun h => h.elim fun o h => ⟨_, h⟩⟩
  | globalPaths =>
    exact hpaths.trans ⟨fun h => h.elim fun paths h => ⟨{ globalPaths := paths }, h⟩,
      fun h => h.elim fun o h => ⟨_, h⟩⟩
  | indent =>
    constructor
    · rintro ⟨n, rfl, hn⟩
      exact ⟨{ indent := n.toNat }, by simp [Holds, hn]⟩
    · rintro ⟨o, rfl⟩
      exact ⟨o.indent, rfl, by simp⟩

/-! ### Reading entries -/

/-- The options that the keys of some entries name, in order. -/
def fields (es : List (String × Value)) : List (Option Field) := es.map fun e => field? e.1

/-- The options that the keys of some entries name, with their values. -/
def settings (es : List (String × Value)) : List (Option Field × Value) :=
  es.map fun e => (field? e.1, e.2)

/-- Every key names an option, which accepts the value, and no option is named twice. -/
structure Admissible (s : Store) (es : List (String × Value)) : Prop where
  accepts : ∀ e ∈ es, ∃ f, field? e.1 = some f ∧ Accepts s f e.2
  distinct : (fields es).Nodup

/-- Every key names an option, no option is named twice, and the options hold the given values and are
the default otherwise. -/
structure Describes (s : Store) (es : List (String × Value)) (o : Options) : Prop where
  holds : ∀ e ∈ es, ∃ f, field? e.1 = some f ∧ Holds s o f e.2
  distinct : (fields es).Nodup
  default : ∀ f, some f ∉ fields es → AgreeAt o {} f

/-- What is wrong with an entry when some options are given. -/
inductive Offends (s : Store) (given : Field → Prop) (key : String) (x : Value) : Fault → Prop
  | unknown (h : field? key = none) :
    Offends s given key x (.options (.unexpectedKey (s.view (.str key))) [key])
  | repeated {f : Field} (h : field? key = some f) (hf : given f) :
    Offends s given key x (.options (.givenTwice (s.view (.str key))) [key])
  | value {f : Field} {e : Fault} (h : field? key = some f) (hf : ¬ given f)
    (hx : Refused s [key] f x e) : Offends s given key x e

variable {given : List Field} {key : String} {x : Value} {es rest : List (String × Value)}

/-- An entry that is at fault ends the reading. -/
theorem ofEntries_of_offends (h : Offends s (· ∈ given) key x e) (o : Options)
    (rest : List (String × Value)) :
    ofEntries s (stringKeyed ((key, x) :: rest)) given o = .error e := by
  have htext : s.text (.str key) = .ok key := rfl
  cases h with
  | unknown h =>
    simp [stringKeyed, ofEntries, htext, h, bind, Except.bind, refuse]
    rfl
  | repeated h hf =>
    simp [stringKeyed, ofEntries, htext, h, hf, bind, Except.bind, refuse]
    rfl
  | value h hf hx =>
    simp [stringKeyed, ofEntries, htext, h, hf, bind, Except.bind, set_error_iff.2 hx]

/-- An entry that is not at fault sets its option before the rest is read. -/
theorem ofEntries_of_set (h : field? key = some f) (hf : f ∉ given)
    (hset : o.set s [key] f x = .ok o') :
    ofEntries s (stringKeyed ((key, x) :: rest)) given o =
      ofEntries s (stringKeyed rest) (f :: given) o' := by
  have htext : s.text (.str key) = .ok key := rfl
  simp [stringKeyed, ofEntries, htext, h, hf, bind, Except.bind, hset]

theorem offends_or_set (s : Store) (given : List Field) (key : String) (x : Value) (o : Options) :
    (∃ e, Offends s (· ∈ given) key x e) ∨
      ∃ f o', field? key = some f ∧ f ∉ given ∧ o.set s [key] f x = .ok o' := by
  cases h : field? key with
  | none => exact .inl ⟨_, .unknown h⟩
  | some f =>
    by_cases hf : f ∈ given
    · exact .inl ⟨_, .repeated h hf⟩
    · cases hset : o.set s [key] f x with
      | error e => exact .inl ⟨e, .value h hf (set_error_iff.1 hset)⟩
      | ok o' => exact .inr ⟨f, o', rfl, hf, hset⟩

/-- Entries are read if each names an option that is not given yet and has a value for it. The options
then hold these values and are otherwise as before. -/
theorem ofEntries_ok_iff : ofEntries s (stringKeyed es) given o = .ok o' ↔
    (∀ e ∈ es, ∃ f, field? e.1 = some f ∧ f ∉ given ∧ Holds s o' f e.2) ∧ (fields es).Nodup ∧
      ∀ f, some f ∉ fields es → AgreeAt o' o f := by
  induction es generalizing given o with
  | nil =>
    constructor
    · rintro ⟨⟩
      exact ⟨by simp, List.nodup_nil, fun f _ => by cases f <;> rfl⟩
    · rintro ⟨-, -, h⟩
      rw [eq_of_agreeAt fun f => h f List.not_mem_nil]
      rfl
  | cons p rest ih =>
    obtain ⟨key, x⟩ := p
    have hfields : fields ((key, x) :: rest) = field? key :: fields rest := rfl
    constructor
    · intro h
      obtain ⟨e, hoffends⟩ | ⟨f, o₁, hkey, hf, hset⟩ := offends_or_set s given key x o
      · cases (ofEntries_of_offends hoffends o rest).symm.trans h
      obtain ⟨hrest, hnodup, hother⟩ := ih.1 ((ofEntries_of_set hkey hf hset).symm.trans h)
      obtain ⟨hholds, hset⟩ := set_ok_iff.1 hset
      have hnew : some f ∉ fields rest := by
        intro hmem
        obtain ⟨e, he, hfield⟩ := List.mem_map.1 hmem
        obtain ⟨g, hg, hgiven, -⟩ := hrest e he
        cases hfield.symm.trans hg
        exact hgiven List.mem_cons_self
      rw [hfields, hkey]
      refine ⟨List.forall_mem_cons.2 ⟨⟨f, hkey, hf, hholds.congr (hother f hnew).symm⟩, ?_⟩,
        List.nodup_cons.2 ⟨hnew, hnodup⟩, fun g hg => ?_⟩
      · intro e he
        obtain ⟨g, hg, hgiven, hholds⟩ := hrest e he
        exact ⟨g, hg, mt (List.mem_cons_of_mem f) hgiven, hholds⟩
      · simp only [List.mem_cons, Option.some.injEq, not_or] at hg
        exact (hother g hg.2).trans (hset g hg.1)
    · rintro ⟨hall, hnodup, hother⟩
      obtain ⟨⟨f, hkey, hf, hholds⟩, hrest⟩ := List.forall_mem_cons.1 hall
      rw [hfields, hkey] at hnodup hother
      obtain ⟨hnew, hnodup⟩ := List.nodup_cons.1 hnodup
      obtain ⟨o₁, hat, hset⟩ := exists_agreeAt o o' f
      rw [ofEntries_of_set hkey hf (set_ok_iff.2 ⟨hholds.congr hat.symm, hset⟩), ih]
      refine ⟨fun e he => ?_, hnodup, fun g hg => ?_⟩
      · obtain ⟨g, hg, hgiven, hholds⟩ := hrest e he
        refine ⟨g, hg, ?_, hholds⟩
        rintro (_ | hmem)
        · exact hnew (List.mem_map.2 ⟨e, he, hg⟩)
        · exact hgiven ‹_›
      · by_cases hgf : g = f
        · exact hgf ▸ hat.symm
        · exact (hother g (by simp [hgf, hg])).trans (hset g hgf).symm

/-- Entries are not read if the first ones are and the next one is at fault. -/
theorem ofEntries_error_iff : ofEntries s (stringKeyed es) given o = .error e ↔
    ∃ before key x after, es = before ++ (key, x) :: after ∧
      (∃ o', ofEntries s (stringKeyed before) given o = .ok o') ∧
      Offends s (fun f => some f ∈ fields before ∨ f ∈ given) key x e := by
  induction es generalizing given o with
  | nil => simp [stringKeyed, ofEntries]
  | cons p rest ih =>
    obtain ⟨key, x⟩ := p
    have hnil (key : String) (x : Value) (e : Fault) :
        Offends s (fun f => some f ∈ fields [] ∨ f ∈ given) key x e ↔
          Offends s (· ∈ given) key x e := by simp [fields]
    obtain ⟨e', hoffends⟩ | ⟨f, o₁, hkey, hf, hset⟩ := offends_or_set s given key x o
    · rw [ofEntries_of_offends hoffends o rest]
      constructor
      · rintro ⟨⟩
        exact ⟨[], key, x, rest, rfl, ⟨o, rfl⟩, (hnil ..).2 hoffends⟩
      · rintro ⟨_ | ⟨p, before⟩, key', x', after, heq, ⟨o', hok⟩, h⟩ <;> cases heq
        · exact (ofEntries_of_offends hoffends o []).symm.trans
            (ofEntries_of_offends ((hnil ..).1 h) o [])
        · cases (ofEntries_of_offends hoffends o before).symm.trans hok
    · rw [ofEntries_of_set hkey hf hset, ih]
      have hgiven (before : List (String × Value)) :
          (fun g => some g ∈ fields ((key, x) :: before) ∨ g ∈ given) =
            fun g => some g ∈ fields before ∨ g ∈ f :: given := by
        funext g
        simp only [fields, List.map_cons, hkey, List.mem_cons, Option.some.injEq, eq_iff_iff]
        tauto
      constructor
      · rintro ⟨before, key', x', after, rfl, ⟨o', hok⟩, h⟩
        exact ⟨(key, x) :: before, key', x', after, rfl,
          ⟨o', (ofEntries_of_set hkey hf hset).trans hok⟩, hgiven before ▸ h⟩
      · rintro ⟨_ | ⟨p, before⟩, key', x', after, heq, ⟨o', hok⟩, h⟩ <;> cases heq
        · cases (ofEntries_of_offends ((hnil ..).1 h) o []).symm.trans (ofEntries_of_set hkey hf hset)
        · exact ⟨before, key', x', after, rfl, ⟨o', (ofEntries_of_set hkey hf hset).symm.trans hok⟩,
            hgiven before ▸ h⟩

theorem describes_iff : Describes s es o ↔ ofEntries s (stringKeyed es) [] {} = .ok o := by
  rw [ofEntries_ok_iff]
  simp only [List.not_mem_nil, not_false_eq_true, true_and]
  exact ⟨fun h => ⟨h.holds, h.distinct, h.default⟩, fun h => ⟨h.1, h.2.1, h.2.2⟩⟩

/-- Entries describe options if they are admissible. -/
theorem exists_describes_iff : (∃ o, Describes s es o) ↔ Admissible s es := by
  constructor
  · rintro ⟨o, h⟩
    exact ⟨fun e he => (h.holds e he).imp fun f hf => ⟨hf.1, accepts_iff.2 ⟨o, hf.2⟩⟩, h.distinct⟩
  · intro h
    cases hread : ofEntries s (stringKeyed es) [] {} with
    | ok o => exact ⟨o, describes_iff.2 hread⟩
    | error e =>
      obtain ⟨before, key, x, after, rfl, -, hoffends⟩ := ofEntries_error_iff.1 hread
      obtain ⟨f, hfield, haccepts⟩ := h.accepts (key, x) (by simp)
      have hnew : some f ∉ fields before := by
        have hdistinct := h.distinct
        rw [fields, List.map_append, List.map_cons, hfield] at hdistinct
        exact fun hmem => (List.nodup_append.1 hdistinct).2.2 _ hmem _ (by simp) rfl
      cases hoffends with
      | unknown h => cases hfield.symm.trans h
      | repeated h hf =>
        cases hfield.symm.trans h
        exact absurd hf (by simpa using hnew)
      | value h _ hx =>
        cases hfield.symm.trans h
        obtain ⟨o, hholds⟩ := accepts_iff.1 haccepts
        obtain ⟨o₁, hat, hset⟩ := exists_agreeAt {} o f
        cases (set_error_iff.2 hx).symm.trans (set_ok_iff.2 ⟨hholds.congr hat.symm, hset⟩)

/-- Entries with the same options at the same values describe the same options. -/
theorem Describes.of_perm {es' : List (String × Value)} (h : Describes s es o)
    (hperm : (settings es).Perm (settings es')) : Describes s es' o := by
  have hfields : (fields es).Perm (fields es') := by
    simpa [settings, fields, Function.comp_def] using hperm.map Prod.fst
  refine ⟨fun e he => ?_, hfields.nodup h.distinct,
    fun f hf => h.default f (mt hfields.mem_iff.1 hf)⟩
  obtain ⟨e', he', heq⟩ := List.mem_map.1 (hperm.mem_iff.2 (List.mem_map_of_mem he))
  obtain ⟨hfield, hvalue⟩ := Prod.ext_iff.1 heq
  simp only at hfield hvalue
  rw [← hfield, ← hvalue]
  exact h.holds e' he'

theorem ofMapping_of_entries {entries : Entries} (h : s.entries? v = some entries) :
    ofMapping s v = ofEntries s entries [] {} := by
  have hnull : v ≠ .null := by
    rintro rfl
    cases h
  simp [ofMapping, h]

end Options

open Options

/-- A mapping with string keys gives options exactly if every key names an option that accepts its
value and no option is named twice; the options are then the given values and the defaults. The order
and the spelling of the keys do not matter. Otherwise the first entry that is at fault decides: the
fault has the path of its key, followed by the index of the first item that is no string in an array
of paths, unless a key of the globals has no text, whose fault it then is. -/
theorem options_of_mapping {s : Store} {v : Value} {es : List (String × Value)}
    (hv : s.entries? v = some (stringKeyed es)) :
    ((∃ o, ofMapping s v = .ok o) ↔ Admissible s es) ∧
      (∀ o, ofMapping s v = .ok o ↔ Describes s es o) ∧
      (∀ v' es' o, s.entries? v' = some (stringKeyed es') → (settings es).Perm (settings es') →
        (ofMapping s v = .ok o ↔ ofMapping s v' = .ok o)) ∧
      ∀ e, ofMapping s v = .error e ↔ ∃ before key x after, es = before ++ (key, x) :: after ∧
        Admissible s before ∧ Offends s (fun f => some f ∈ fields before) key x e := by
  have hok {v : Value} {es : List (String × Value)} (hv : s.entries? v = some (stringKeyed es))
      (o : Options) : ofMapping s v = .ok o ↔ Describes s es o := by
    rw [ofMapping_of_entries hv, describes_iff]
  refine ⟨?_, hok hv, fun v' es' o hv' hperm => ?_, fun e => ?_⟩
  · simp only [hok hv, exists_describes_iff]
  · rw [hok hv, hok hv']
    exact ⟨fun h => h.of_perm hperm, fun h => h.of_perm hperm.symm⟩
  · simp only [ofMapping_of_entries hv, ofEntries_error_iff, ← describes_iff, exists_describes_iff,
      List.not_mem_nil, or_false]

/-- A store with two mappings of the same options, spelled and ordered in different ways, and one that
names an option twice before a value is wrong. -/
def optionStore : Store where
  objects := #[
    .map [(.str "indent", .int 2), (.str "globalPaths", .str "App")],
    .map [(.str "globalPathAliases", .str "App"), (.str "indent", .int 2)],
    .map [(.str "globalPaths", .str "App"), (.str "global_paths", .null), (.str "indent", .null)]]

/-- Both mappings give the same options, and the third is refused at its second key. -/
theorem options_of_mapping_optionStore :
    ofMapping optionStore (.object ⟨0⟩) = .ok { globalPaths := ["App"], indent := 2 } ∧
      ofMapping optionStore (.object ⟨1⟩) = .ok { globalPaths := ["App"], indent := 2 } ∧
      ofMapping optionStore (.object ⟨2⟩) =
        .error (.options (.givenTwice (.str "global_paths")) ["global_paths"]) := by
  have hv : optionStore.entries? (.object ⟨0⟩) =
    some (stringKeyed [("indent", .int 2), ("globalPaths", .str "App")]) := rfl
  have hv' : optionStore.entries? (.object ⟨1⟩) =
    some (stringKeyed [("globalPathAliases", .str "App"), ("indent", .int 2)]) := rfl
  have htwice : optionStore.entries? (.object ⟨2⟩) = some (stringKeyed
    [("globalPaths", .str "App"), ("global_paths", .null), ("indent", .null)]) := rfl
  obtain ⟨-, hok, hperm, -⟩ := options_of_mapping hv
  obtain ⟨-, -, -, herror⟩ := options_of_mapping htwice
  have hread := (hok { globalPaths := ["App"], indent := 2 }).2 (by
    refine ⟨List.forall_mem_cons.2 ⟨⟨.indent, rfl, rfl⟩, List.forall_mem_singleton.2
      ⟨.globalPaths, rfl, .inr (.inl ⟨"App", rfl, rfl⟩)⟩⟩, by decide, fun f hf => ?_⟩
    cases f <;> first | rfl | exact absurd (by decide) hf)
  refine ⟨hread, (hperm _ _ _ hv' (.swap _ _ _)).1 hread, (herror _).2 ?_⟩
  exact ⟨[("globalPaths", .str "App")], "global_paths", .null, [("indent", .null)], rfl,
    ⟨List.forall_mem_singleton.2 ⟨.globalPaths, rfl, .inr (.inl ⟨"App", rfl⟩)⟩, by decide⟩,
    .repeated rfl (by decide)⟩

/-- A store with options whose globals are a mapping with an unbound placeholder as a key. -/
def untitledStore : Store where
  objects := #[
    .map [(.str "context", .object ⟨1⟩)],
    .map [(.object ⟨2⟩, .int 1)],
    .node ⟨.placeholder .null .null, .own []⟩ []]

/-- A mapping is not always accepted as globals: a key that has no text fails with its own fault. -/
theorem context_key_without_text :
    untitledStore.entries? (.object ⟨0⟩) = some (stringKeyed [("context", .object ⟨1⟩)]) ∧
      untitledStore.entries? (.object ⟨1⟩) = some [(.object ⟨2⟩, .int 1)] ∧
      ofMapping untitledStore (.object ⟨0⟩) = .error (.shape .unboundPlaceholder) :=
  ⟨rfl, rfl, rfl⟩

end TemplateRecovery
