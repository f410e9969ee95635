import TemplateRecovery.Proofs.Exchange
import TemplateRecovery.Registration

/-!
# What a statement does to its globals

A statement works on values first, and only then, if nothing has failed, binds or removes at most one
name. It comes across values through the names that it looks up, so two runs that see the same names
go on alike, even if their globals are two different mappings. If the globals are among what the
values lead to, they are an object like all others.

* `Program.Statement.target?` is the name that a statement binds or removes, and
  `Program.Statement.run_eq` takes a statement apart.
* `Program.Sees` says that two frames show the same names in two stores.
* `Program.Statement.result_relates` compares what two statements do to values.
* `Program.Statement.run_local` and `Program.run_local` are about globals among the reachable objects.
-/

namespace TemplateRecovery

open Act Act Store

variable {v : Value} {g : ObjectId}

/-! ### Values -/

namespace Environment

variable {r : Region} {s s' : Store}

theorem evaluate_local (h : Alike r s s') (t : Term) : (evaluate t).Local r s s' := by
  refine local_store ?_
  rw [machine, machine, h.storeDepth]
  exact t.eval_local (Machine.ofDepth_local _) h inRegion_nil

theorem call_local (h : Alike r s s') {f : Value} {args : List Value} (hf : InRegion r f)
    (hargs : InRegion r args) : (call f args).Local r s s' := by
  refine local_store ?_
  rw [machine, machine, h.storeDepth]
  exact (Machine.ofDepth_local _).call h hf hargs

end Environment

namespace Program

variable {r r' : Region} {s s' t t' : Store} {f f' : Frame}

theorem follow_local (h : Alike r s s') (hv : InRegion r v) (path : List String) :
    (follow v path).Local r s s' :=
  local_foldlM h (inRegion_list.2 fun name _ => inRegion_string name) hv
    fun _ h hv _ => Attribute.get_local h hv _

theorem addNumbers_ordinary {a b : Int ⊕ Binary64} {e : Fault} (h : addNumbers a b = .error e) :
    e.isOrdinary = true := by
  have hnearest : ∀ {n : Int} {g : Binary64 → Int ⊕ Binary64},
      (nearest n >>= fun x => pure (g x)) = .error e → e.isOrdinary = true := by
    intro n g h
    unfold nearest at h
    split at h <;> cases h
    rfl
  cases a <;> cases b
  · cases h
  · exact hnearest h
  · exact hnearest h
  · cases h

instance : Names (Int ⊕ Binary64) := ⟨fun _ => []⟩

theorem sum_local (h : Alike r s s') {w : Value} (hv : InRegion r v) (hw : InRegion r w) :
    (sum v w).Local r s s' := by
  refine local_store ?_
  rw [h.asObject? hv, h.asObject? hw]
  split
  · next id items ho =>
    obtain ⟨hid, -⟩ := h.of_asObject? hv ho
    refine Local.bind (Container.items_local h hw) fun o hitems => ?_
    refine Local.bind (local_modify o.alike (o.grows hid) fun p hp => ?_) fun o' _ => ?_
    · have hp := o.alike.closed id (o.grows hid) p hp
      cases p with
      | list old => exact inRegion_append.2 ⟨hp, hitems⟩
      | _ => exact hp
    · exact local_pure o'.alike (hv.mono (o.grows.trans o'.grows))
  · exact local_pure h (inRegion_str _)
  · next ho ho' =>
    refine local_new h (inRegion_tupleObject.2 (inRegion_append.2 ⟨?_, ?_⟩))
    · exact (h.of_asObject? hv ho).2
    · exact (h.of_asObject? hw ho').2
  · split
    · refine Local.bind (local_lift h (fun a _ => inRegion_of_ids rfl) fun e he =>
        addNumbers_ordinary he) fun {n _ _ _} o _ => ?_
      cases n with
      | inl n => exact local_pure o.alike (inRegion_intValue n)
      | inr x => exact local_newFloat o.alike x
    · exact local_fail h rfl

/-! ### Names -/

/-- What the built-in names give for importing. -/
def importer? (s : Store) (frame : Frame) : Option Value :=
  (s.entries? frame.builtins).bind (s.findName? "__import__")

/-- **Two frames that show the same names in two stores.** Either the globals are an object that the
values may lead to, and there is but one frame; or no value leads to the globals of either. -/
structure Sees (f f' : Frame) (r : Region) (s s' : Store) : Prop where
  builtins : f'.builtins = f.builtins
  builtins_mem : InRegion r f.builtins
  entries : entriesOf s' f'.globals = entriesOf s f.globals
  entries_mem : InRegion r (entriesOf s f.globals)
  place : f' = f ∧ f.globals ∈ r ∨ (f.globals ∉ r ∧ f.globals.index < s.objects.size) ∧
    (f'.globals ∉ r ∧ f'.globals.index < s.objects.size)

theorem entriesOf_of_object?_eq {g' : ObjectId} (h : t.object? g' = s.object? g) :
    entriesOf t g' = entriesOf s g := by
  simp only [entriesOf, entries?, asObject?, h]
  cases s.object? g with
  | none => rfl
  | some o => cases o <;> rfl

theorem entriesOf_of_map {entries : Entries} (h : s.object? g = some (.map entries)) :
    entriesOf s g = entries := by
  rw [entriesOf, entries?, asObject?_of_object? h, Option.getD_some]

theorem Alike.inRegion_entriesOf (h : Alike r s s') (hg : g ∈ r) : InRegion r (entriesOf s g) := by
  cases ho : s.object? g with
  | none => simp [entriesOf, entries?, asObject?, ho]
  | some o =>
    have hclosed := h.closed g hg o ho
    rw [entriesOf, entries?, asObject?_of_object? ho]
    cases o with
    | map entries => exact inRegion_mapObject.1 hclosed
    | _ => exact inRegion_nil

/-- Globals among the objects that values lead to. -/
theorem sees_of_mem (h : Alike r s s') (hb : InRegion r f.builtins) (hg : f.globals ∈ r) :
    Sees f f r s s' :=
  ⟨rfl, hb, entriesOf_of_object?_eq (h.object _ hg), Alike.inRegion_entriesOf h hg, .inl ⟨rfl, hg⟩⟩

theorem Sees.later {ending : Option Fault} (hf : Sees f f' r s s')
    (o : Outcome r s s' r' t t' ending) : Sees f f' r' t t' := by
  have hb := hf.builtins_mem.mono o.grows
  rcases hf.place with ⟨rfl, hg⟩ | ⟨⟨hg, hlt⟩, hg', hlt'⟩
  · exact sees_of_mem o.alike hb (o.grows hg)
  · have hnew {g : ObjectId} (hg : g ∉ r) (hlt : g.index < s.objects.size) :
        g ∉ r' ∧ g.index < t.objects.size :=
      ⟨o.not_mem hg hlt, lt_of_lt_of_le hlt o.size⟩
    have hkept := entriesOf_of_object?_eq (o.kept _ hg hlt)
    refine ⟨hf.builtins, hb, ?_, ?_, .inr ⟨hnew hg hlt, hnew hg' hlt'⟩⟩
    · rw [entriesOf_of_object?_eq (o.kept' _ hg' hlt'), hkept, hf.entries]
    · rw [hkept]
      exact hf.entries_mem.mono o.grows

theorem inRegion_constant? (name : String) : InRegion r (constant? name) := by
  unfold constant?
  split <;> simp

/-- Built-in names stand for values of the region; without one there is no such name. -/
theorem builtin_relates (h : Alike r s s') (hb : InRegion r f.builtins) (hf : f'.builtins = f.builtins)
    (name : String) :
    Relates Eq Same r s s' (lift (builtin s f name)) (lift (builtin s' f' name)) := by
  unfold builtin
  rw [hf, h.entries? hb]
  cases hentries : s.entries? f.builtins with
  | none => exact local_fail h rfl
  | some entries =>
    have hmem := h.of_entries? hb hentries
    simp only [h.findName? hmem]
    cases hfound : s.findName? name entries with
    | none => exact local_fail h rfl
    | some v => exact local_pure h (inRegion_some.1 (hfound ▸ Alike.inRegion_find? hmem))

theorem lookUp_relates (h : Alike r s s') (hf : Sees f f' r s s') (name : String) :
    Relates Eq Same r s s' (lookUp f name) (lookUp f' name) := by
  refine relates_store ?_
  rw [hf.entries, h.findName? hf.entries_mem]
  cases hconstant : constant? name with
  | some v => exact local_pure h (inRegion_some.1 (hconstant ▸ inRegion_constant? name))
  | none =>
    cases hfound : s.findName? name (entriesOf s f.globals) with
    | some v =>
      exact local_pure h (inRegion_some.1 (hfound ▸ Alike.inRegion_find? hf.entries_mem))
    | none => exact builtin_relates h hf.builtins_mem hf.builtins name

theorem Chain.resolve_relates (h : Alike r s s') (hf : Sees f f' r s s') (chain : Chain) :
    Relates Eq Same r s s' (chain.resolve f) (chain.resolve f') := by
  cases chain with
  | require arg path =>
    refine (lookUp_relates h hf _).bind_same fun o hloader => ?_
    refine Local.bind (Environment.evaluate_local o.alike arg) fun o₁ harg => ?_
    refine Local.bind (Environment.call_local o₁.alike (hloader.mono o₁.grows) ?_) fun o₂ hanswer => ?_
    · exact inRegion_cons.2 ⟨harg, inRegion_nil⟩
    · exact follow_local o₂.alike hanswer path
  | global name path =>
    exact (lookUp_relates h hf _).bind_same fun o hv => follow_local o.alike hv path

theorem registerWith_relates (h : Alike r s s') (hf : Sees f f' r s s') (chain : Chain)
    (surface : String) {template template' : Act Value}
    (htemplate : ∀ {r t t'}, Alike r t t' → Sees f f' r t t' →
      Relates Eq Same r t t' template template') :
    Relates Eq Same r s s' (registerWith f chain surface template)
      (registerWith f' chain surface template') := by
  refine (chain.resolve_relates h hf).bind_same fun o hroot => ?_
  refine Relates.bind_same (follow_local o.alike hroot _) fun o₁ hfunction => ?_
  refine (htemplate o₁.alike ((hf.later o).later o₁)).bind_same fun o₂ hv => ?_
  exact Environment.call_local o₂.alike (hfunction.mono o₂.grows) (inRegion_cons.2 ⟨hv, inRegion_nil⟩)

/-! ### Statements -/

/-- The name that a statement binds or removes. -/
def Statement.target? : Statement → Option String
  | .alias name _ => some name
  | .setName name _ => some name
  | .add name _ => some name
  | .delete name => some name
  | .importModule name => some name
  | _ => none

/-- What a statement does before it changes its globals: the value that it binds, if it binds one. -/
def Statement.result (frame : Frame) : Statement → Act (Option Value)
  | .register chain template => do
    let _ ← registerWith frame chain "HTMLBars" (Environment.evaluate template)
    return none
  | .registerName chain name => do
    let _ ← registerWith frame chain "HTMLBars" (lookUp frame name)
    return none
  | .exportTemplate chain template => do
    let v ← registerWith frame chain "HTMLBars" (Environment.evaluate template)
    let owner ← lookUp frame "module"
    Attribute.set owner "exports" v
    return none
  | .legacy chain template => do
    let _ ← registerWith frame chain "Handlebars" (Environment.evaluate template)
    return none
  | .read chain => do
    let _ ← chain.resolve frame
    return none
  | .alias _ chain => do
    let v ← chain.resolve frame
    return some v
  | .setName _ v => do
    let v ← Environment.evaluate v
    return some v
  | .setAttribute name path attr v => do
    let v ← Environment.evaluate v
    let root ← lookUp frame name
    let owner ← follow root path
    Attribute.set owner attr v
    return none
  | .add name v => do
    let old ← lookUp frame name
    let v ← Environment.evaluate v
    let new ← sum old v
    return some new
  | .delete name => do
    let s ← store
    match s.findName? name (entriesOf s frame.globals) with
    | some _ => return none
    | none => fail (.noName name)
  | .append name v => do
    let container ← lookUp frame name
    let method ← Attribute.get container "append"
    let v ← Environment.evaluate v
    let _ ← Environment.call method [v]
    return none
  | .setItem name key v => do
    let v ← Environment.evaluate v
    let container ← lookUp frame name
    let key ← Environment.evaluate key
    Container.setItem container key v
    return none
  | .importModule name => do
    let s ← store
    match importer? s frame with
    | some f => do
      let globals := .object frame.globals
      let v ← Environment.call f [.str name, globals, globals, .null, .int 0]
      return some v
    | none => fail .noImport
  | .raise kind message => do
    Program.raise frame kind message
    return none

/-- Binds a name to a value, or removes it. -/
def rebind (frame : Frame) : Option String → Option Value → Act Unit
  | none, _ => return ()
  | some name, some v => assign frame name v
  | some name, none => do
    let s ← store
    modify frame.globals (withoutName s name)

/-- **A statement changes its globals last.** -/
theorem Statement.run_eq (frame : Frame) (statement : Statement) :
    statement.run frame = statement.result frame >>= rebind frame statement.target? := by
  cases statement with
  | delete name =>
    funext s
    change _ = ((store >>= _) >>= _) s
    rw [bind_assoc]
    simp only [run, Program.delete, bind_store]
    cases s.findName? name (entriesOf s frame.globals) <;> rfl
  | importModule name =>
    funext s
    change _ = ((store >>= _) >>= _) s
    rw [bind_assoc]
    simp only [run, Program.importModule, bind_store, importer?]
    cases (s.entries? frame.builtins).bind (s.findName? "__import__") with
    | none => rfl
    | some f =>
      simp only [bind_assoc, pure_bind]
      rfl
  | _ =>
    simp only [run, result, target?, rebind, bind_assoc, pure_bind, bind_pure_unit]

theorem raise_relates (h : Alike r s s') (hf : Sees f f' r s s') (kind message : String) :
    Relates Eq Same r s s' (Program.raise f kind message) (Program.raise f' kind message) := by
  refine (lookUp_relates h hf kind).bind_same fun o hv => ?_
  split
  · split_ifs <;> exact local_fail o.alike rfl
  · refine Local.bind (Environment.call_local o.alike hv ?_) fun o' _ => local_fail o'.alike rfl
    exact inRegion_cons.2 ⟨inRegion_str message, inRegion_nil⟩

/-- **What a statement does to values depends on the names that it sees.** Only an import hands out the
globals themselves. -/
theorem Statement.result_relates (h : Alike r s s') (hf : Sees f f' r s s') (statement : Statement)
    (himport : f' = f ∧ f.globals ∈ r ∨
      ∀ name, statement = .importModule name → importer? s f = none) :
    Relates Eq Same r s s' (statement.result f) (statement.result f') := by
  have hnone {r t t'} (h : Alike r t t') : (pure none : Act (Option Value)).Local r t t' :=
    local_pure h inRegion_none
  have hevaluate (v : Term) {r t t'} (h : Alike r t t') (_ : Sees f f' r t t') :
      Relates Eq Same r t t' (Environment.evaluate v) (Environment.evaluate v) :=
    Environment.evaluate_local h v
  cases statement with
  | register chain template =>
    exact (registerWith_relates h hf chain _ (hevaluate template)).bind_same fun o _ => hnone o.alike
  | registerName chain name =>
    exact (registerWith_relates h hf chain _ fun h hf => lookUp_relates h hf name).bind_same
      fun o _ => hnone o.alike
  | exportTemplate chain template =>
    refine (registerWith_relates h hf chain _ (hevaluate template)).bind_same fun o hv => ?_
    refine (lookUp_relates o.alike (hf.later o) _).bind_same fun o₁ howner => ?_
    exact Local.bind (Attribute.set_local o₁.alike howner (hv.mono o₁.grows) _) fun o₂ _ =>
      hnone o₂.alike
  | legacy chain template =>
    exact (registerWith_relates h hf chain _ (hevaluate template)).bind_same fun o _ => hnone o.alike
  | read chain => exact (chain.resolve_relates h hf).bind_same fun o _ => hnone o.alike
  | «alias» name chain =>
    exact (chain.resolve_relates h hf).bind_same fun o hv => local_pure o.alike (inRegion_some.2 hv)
  | setName name v =>
    exact (hevaluate v h hf).bind_same fun o hv => local_pure o.alike (inRegion_some.2 hv)
  | setAttribute name path attr v =>
    refine (hevaluate v h hf).bind_same fun o hv => ?_
    refine (lookUp_relates o.alike (hf.later o) name).bind_same fun o₁ hroot => ?_
    refine Local.bind (follow_local o₁.alike hroot path) fun o₂ howner => ?_
    refine Local.bind (Attribute.set_local o₂.alike howner ?_ attr) fun o₃ _ => hnone o₃.alike
    exact hv.mono (o₁.grows.trans o₂.grows)
  | add name v =>
    refine (lookUp_relates h hf name).bind_same fun o hold => ?_
    refine Local.bind (Environment.evaluate_local o.alike v) fun o₁ hv => ?_
    refine Local.bind (sum_local o₁.alike (hold.mono o₁.grows) hv) fun o₂ hnew => ?_
    exact local_pure o₂.alike (inRegion_some.2 hnew)
  | delete name =>
    refine relates_store ?_
    rw [hf.entries, h.findName? hf.entries_mem]
    cases s.findName? name (entriesOf s f.globals) with
    | some v => exact hnone h
    | none => exact local_fail h rfl
  | append name v =>
    refine (lookUp_relates h hf name).bind_same fun o hcontainer => ?_
    refine Local.bind (Attribute.get_local o.alike hcontainer _) fun o₁ hmethod => ?_
    refine Local.bind (Environment.evaluate_local o₁.alike v) fun o₂ hv => ?_
    refine Local.bind (Environment.call_local o₂.alike (hmethod.mono o₂.grows) ?_) fun o₃ _ =>
      hnone o₃.alike
    exact inRegion_cons.2 ⟨hv, inRegion_nil⟩
  | setItem name key v =>
    refine (hevaluate v h hf).bind_same fun o hv => ?_
    refine (lookUp_relates o.alike (hf.later o) name).bind_same fun o₁ hcontainer => ?_
    refine Local.bind (Environment.evaluate_local o₁.alike key) fun o₂ hkey => ?_
    refine Local.bind (Container.setItem_local o₂.alike (hcontainer.mono o₂.grows) hkey ?_)
      fun o₃ _ => hnone o₃.alike
    exact hv.mono (o₁.grows.trans o₂.grows)
  | importModule name =>
    have himporter : importer? s' f' = importer? s f := by
      unfold importer?
      rw [hf.builtins, h.entries? hf.builtins_mem]
      cases hentries : s.entries? f.builtins with
      | none => rfl
      | some entries => exact h.findName? (h.of_entries? hf.builtins_mem hentries)
    refine relates_store ?_
    rw [himporter]
    rcases himport with ⟨rfl, hg⟩ | himport
    · -- the importer is handed the globals, so they have to lie in the region
      cases hfound : importer? s f' with
      | none => exact local_fail h rfl
      | some function =>
        obtain ⟨entries, hentries, hfunction⟩ := Option.bind_eq_some_iff.1 hfound
        have hmem : InRegion r (s.findName? "__import__" entries) :=
          Alike.inRegion_find? (h.of_entries? hf.builtins_mem hentries)
        rw [hfunction] at hmem
        refine Local.bind (Environment.call_local h (inRegion_some.1 hmem) ?_) fun o hv =>
          local_pure o.alike (inRegion_some.2 hv)
        simp [hg]
    · rw [himport name rfl]
      exact local_fail h rfl
  | raise kind message =>
    exact (raise_relates h hf kind message).bind_same fun o _ => hnone o.alike

/-! ### Entries under names -/

def mapEntries (c : Entries → Entries) : Object → Object
  | .map entries => .map (c entries)
  | o => o

theorem depth_mapEntries (c : Entries → Entries) (o : Object) :
    (mapEntries c o).depth = o.depth := by
  cases o <;> rfl

theorem inRegion_mapEntries {c : Entries → Entries}
    (hc : ∀ entries, InRegion r entries → InRegion r (c entries)) {o : Object} (ho : InRegion r o) :
    InRegion r (mapEntries c o) := by
  cases o with
  | map entries => exact inRegion_mapObject.2 (hc entries (inRegion_mapObject.1 ho))
  | _ => exact ho

/-- A mapping of the region gets other entries, on both sides the same. -/
theorem outcome_mapEntries (h : Alike r s s') (hg : g ∈ r) {c : Entries → Entries}
    (hc : ∀ entries, InRegion r entries → InRegion r (c entries)) :
    Outcome r s s' r (s.update g (mapEntries c)) (s'.update g (mapEntries c)) none :=
  h.outcome_update hg fun o ho => ⟨rfl, inRegion_mapEntries hc (h.closed g hg o ho)⟩

/-- The entries with a name bound. Names are compared alike in every store. -/
def bindName (name : String) (v : Value) : Entries → Entries := Assoc.insert (· == ·) (.str name) v

def dropNames (names : List String) (entries : Entries) : Entries :=
  entries.filter fun e => decide (∀ name ∈ names, e.1 ≠ .str name)

theorem withName_eq (s : Store) (name : String) (v : Value) :
    withName s name v = mapEntries (bindName name v) := by
  funext o
  cases o with
  | map entries => exact congrArg Object.map (s.insert_name name v entries)
  | _ => rfl

theorem withoutName_eq (s : Store) (name : String) :
    withoutName s name = mapEntries (dropNames [name]) := by
  funext o
  cases o with
  | map entries =>
    refine congrArg Object.map (List.filter_congr fun e _ => ?_)
    rw [sameKey_name, Bool.eq_iff_iff]
    simp
  | _ => rfl

theorem mapEntries_mapEntries (c c' : Entries → Entries) (o : Object) :
    mapEntries c (mapEntries c' o) = mapEntries (fun entries => c (c' entries)) o := by
  cases o <;> rfl

theorem inRegion_bindName {name : String} {entries : Entries} (hv : InRegion r v)
    (he : InRegion r entries) : InRegion r (bindName name v entries) :=
  Alike.inRegion_insert (inRegion_str name) hv he

theorem inRegion_dropNames (names : List String) (entries : Entries) (he : InRegion r entries) :
    InRegion r (dropNames names entries) :=
  he.subset (List.filter_subset_self _)

/-- The entries after a statement: a name is bound to a value, or removed, or there is no name. -/
def rebound : Option String → Option Value → Entries → Entries
  | none, _ => id
  | some name, some v => bindName name v
  | some name, none => dropNames [name]

theorem inRegion_rebound {target : Option String} {v : Option Value} (hv : InRegion r v)
    (entries : Entries) (he : InRegion r entries) : InRegion r (rebound target v entries) := by
  cases target with
  | none => exact he
  | some name =>
    cases v with
    | none => exact inRegion_dropNames _ entries he
    | some v => exact inRegion_bindName (inRegion_some.1 hv) he

theorem rebind_some (f : Frame) (name : String) (v : Option Value) :
    rebind f (some name) v = modify f.globals (mapEntries (rebound (some name) v)) := by
  funext s
  cases v with
  | none => rw [rebind, bind_store, withoutName_eq, rebound]
  | some v => rw [rebind, assign, bind_store, withName_eq, rebound]

/-! ### Globals among the reachable objects -/

theorem rebind_local (h : Alike r s s') (hg : f.globals ∈ r) (target : Option String)
    {v : Option Value} (hv : InRegion r v) : (rebind f target v).Local r s s' := by
  cases target with
  | none => exact local_pure h (inRegion_unit _)
  | some name =>
    rw [rebind_some]
    exact local_of_ok rfl rfl (outcome_mapEntries h hg (inRegion_rebound hv)) (inRegion_unit ())

theorem Statement.run_local (h : Alike r s s') (hb : InRegion r f.builtins) (hg : f.globals ∈ r)
    (statement : Statement) : (statement.run f).Local r s s' := by
  rw [Statement.run_eq]
  refine (statement.result_relates h (sees_of_mem h hb hg) (.inl ⟨rfl, hg⟩)).bind_same fun o hv => ?_
  exact rebind_local o.alike (o.grows hg) _ hv

/-- A program touches nothing but what its globals lead to. -/
theorem run_local (h : Alike r s s') (hb : InRegion r f.builtins) (hg : f.globals ∈ r)
    (program : Program) : (run f program).Local r s s' := by
  induction program generalizing r s s' with
  | nil => exact local_pure h (inRegion_unit _)
  | cons statement rest ih =>
    refine Local.bind (statement.run_local h hb hg) fun o _ => ?_
    exact ih o.alike (hb.mono o.grows) (o.grows hg)

/-! ### The injected names -/

/-- The value that a run gives to a name it adds. -/
def injectedValue (builtins : Value) (name : String) : Value :=
  if name = builtinsName then builtins else .str "__template__"

def addNames (builtins : Value) (names : List String) (entries : Entries) : Entries :=
  names.foldl (fun entries name => bindName name (injectedValue builtins name) entries) entries

def builtinsObject : Object := .map (Builtin.table.map fun (name, v) => (.str name, v))

theorem inRegion_builtinsObject : InRegion r builtinsObject := by
  refine inRegion_mapObject.2 (inRegion_list.2 fun e he => ?_)
  have hids : ∀ e ∈ Builtin.table.map fun (name, v) => ((.str name : Value), v), Names.ids e = [] := by
    decide +kernel
  exact inRegion_of_ids (hids e he)

theorem inRegion_addNames {builtins : Value} (hb : InRegion r builtins) (names : List String)
    (entries : Entries) (he : InRegion r entries) : InRegion r (addNames builtins names entries) := by
  induction names generalizing entries with
  | nil => exact he
  | cons name rest ih =>
    refine ih _ (inRegion_bindName ?_ he)
    unfold injectedValue
    split_ifs
    · exact hb
    · exact inRegion_str _

theorem foldl_withName (s : Store) (builtins : Value) (names : List String) (o : Object) :
    names.foldl
      (fun o name => withName s name (if name = builtinsName then builtins else .str "__template__")
        o) o = mapEntries (addNames builtins names) o := by
  induction names generalizing o with
  | nil => cases o <;> rfl
  | cons name rest ih =>
    rw [List.foldl_cons, ih, withName_eq, mapEntries_mapEntries]
    rfl

theorem foldl_withoutName (s : Store) (names : List String) (o : Object) :
    names.foldl (fun o name => withoutName s name o) o = mapEntries (dropNames names) o := by
  induction names generalizing o with
  | nil => cases o <;> simp [mapEntries, dropNames]
  | cons name rest ih =>
    rw [List.foldl_cons, ih, withoutName_eq, mapEntries_mapEntries]
    congr 1
    funext entries
    simp only [dropNames, List.filter_filter]
    refine List.filter_congr fun e _ => ?_
    simp [Bool.and_comm]

theorem inject_apply (g : ObjectId) (names : List String) (s : Store) : inject g names s =
      .ok () ((s.push builtinsObject).update g (mapEntries (addNames (.object s.next) names))) := by
  change modify g _ (s.push builtinsObject) = _
  rw [← funext (foldl_withName (s.push builtinsObject) (.object s.next) names)]
  rfl

theorem eject_apply (g : ObjectId) (names : List String) (s : Store) :
    eject g names s = .ok () (s.update g (mapEntries (dropNames names))) := by
  change modify g _ s = _
  rw [← funext (foldl_withoutName s names)]
  rfl

/-! ### Whole runs -/

/-- The names that a run adds are removed, however it ends. -/
theorem always_eject_local {x : Act Unit} (hx : x.Local r s s') (hg : g ∈ r) (names : List String) :
    (always x (eject g names)).Local r s s' := by
  have hdrop {r t t'} (h : Alike r t t') (hg : g ∈ r) := outcome_mapEntries h hg
    (inRegion_dropNames names)
  rcases hx.cases with ⟨_, t, _, t', r', hok, hok', o, -⟩ | ⟨e, t, e', t', r', he, he', rfl, o⟩
  · refine local_of_ok ?_ ?_ (o.trans (hdrop o.alike (o.grows hg))) (inRegion_unit ())
    · simp only [always, hok, eject_apply]
    · simp only [always, hok', eject_apply]
  · refine local_of_error ?_ ?_ (o.followed (hdrop o.alike (o.grows hg)) (o.records.of_eq rfl rfl))
    · simp only [always, he, eject_apply]
    · simp only [always, he', eject_apply]

theorem inject_local (h : Alike r s s') (hg : g ∈ r) (names : List String) :
    (inject g names).Local r s s' := by
  have o := h.outcome_push (inRegion_builtinsObject (r := r))
  have hnext : InRegion (insert s.next r) (Value.object s.next) := by simp
  have o' := outcome_mapEntries o.alike (o.grows hg) (inRegion_addNames hnext names)
  refine local_of_ok (inject_apply g names s) ?_ (o.trans o') (inRegion_unit ())
  rw [inject_apply, h.next]

theorem execute_local (h : Alike r s s') (hg : g ∈ r) (program : Program) :
    (execute program g).Local r s s' := by
  refine local_store ?_
  have hmissing : missingNames s' (entriesOf s' g) = missingNames s (entriesOf s g) := by
    refine List.filter_congr fun name _ => ?_
    rw [entriesOf_of_object?_eq (h.object g hg), h.findName? (Alike.inRegion_entriesOf h hg)]
  rw [hmissing]
  refine (inject_local h hg _).bind fun {_ r' t t'} o _ => local_store ?_
  have hentries := Alike.inRegion_entriesOf o.alike (o.grows hg)
  rw [entriesOf_of_object?_eq (o.alike.object g (o.grows hg)), o.alike.findName? hentries]
  refine always_eject_local (run_local o.alike ?_ (o.grows hg) program) (o.grows hg) _
  exact inRegion_getD (Alike.inRegion_find? hentries) inRegion_null

theorem executeOn_local (h : Alike r s s') (hv : InRegion r v) (program : Program) :
    (executeOn program v).Local r s s' := by
  refine local_store ?_
  rw [h.asObject? hv]
  split
  · next ho => exact execute_local h (h.of_asObject? hv ho).1 program
  · exact local_noAttribute h hv _
  · exact local_noAttribute h hv _
  · exact local_noAttribute h hv _
  · exact local_fail h rfl

/-- A run touches nothing but what its context leads to. -/
theorem evaluate_local (h : Alike r s s') {context : Value} (hv : InRegion r context) (copied : Bool)
    (program : Program) : (evaluate program context copied).Local r s s' := by
  have hglobals : (globalsFor context copied).Local r s s' := by
    unfold globalsFor
    split
    · exact local_new h (inRegion_mapObject.2 inRegion_nil)
    · exact Local.bind (Container.pairs_local h hv) fun o he =>
        local_new o.alike (inRegion_mapObject.2 he)
    · exact local_pure h hv
  refine hglobals.bind fun o hg => ?_
  exact Local.bind (executeOn_local o.alike hg program) fun o' _ =>
    local_pure o'.alike (hg.mono o'.grows)

end Program

/-! ### Environments -/

namespace Alias

variable {r : Region} {s s' : Store}

section Paths

variable (h : Alike r s s')

include h

theorem member_local {container : Value} (hc : InRegion r container)
    (segment : String) : (member container segment).Local r s s' := by
  refine local_store ?_
  rw [h.entries? hc]
  cases hentries : s.entries? container with
  | some entries =>
    have he := h.of_entries? hc hentries
    dsimp only
    rw [h.findName? he]
    exact local_pure h (inRegion_getD (Alike.inRegion_find? he) inRegion_null)
  | none =>
    exact Local.bind (Attribute.find?_local h hc segment) fun o hfound =>
      local_pure o.alike (inRegion_getD hfound inRegion_null)

theorem setMember_local {container : Value} (hc : InRegion r container)
    (hv : InRegion r v) (segment : String) : (setMember container segment v).Local r s s' := by
  refine local_store ?_
  rw [h.entries? hc]
  cases s.entries? container with
  | some entries => exact Container.setItem_local h hc (inRegion_str segment) hv
  | none => exact Attribute.set_local h hc hv segment

theorem isContainer_alike (hv : InRegion r v) : isContainer s' v = isContainer s v := by
  simp only [isContainer, Attribute.isOpen, h.entries? hv, h.asObject? hv]

theorem enter_local {current : Value} (hc : InRegion r current)
    (path segment : String) : (enter path current segment).Local r s s' := by
  refine (member_local h hc segment).bind fun {existing r' t t'} o hexisting => local_store ?_
  rw [isContainer_alike o.alike hexisting]
  split_ifs
  · refine Local.bind (local_new o.alike (inRegion_recordObject.2 inRegion_nil)) fun o₁ hfresh => ?_
    refine Local.bind (setMember_local o₁.alike (hc.mono (o.grows.trans o₁.grows)) hfresh segment)
      fun o₂ _ => ?_
    exact local_pure o₂.alike (hfresh.mono o₂.grows)
  · exact local_pure o.alike hexisting
  · exact local_fail o.alike rfl

theorem defineFrom_local {current : Value} (hv : InRegion r v)
    (hc : InRegion r current) (path : String) (segments : List String) :
    (defineFrom path v current segments).Local r s s' := by
  induction segments generalizing r s s' current with
  | nil => exact local_pure h (inRegion_unit _)
  | cons segment rest ih =>
    cases rest with
    | nil => exact setMember_local h hc hv segment
    | cons _ _ =>
      refine Local.bind (enter_local h hc path segment) fun o hnext => ?_
      exact ih o.alike (hv.mono o.grows) hnext

theorem defineAt_local {root path : Value} (hroot : InRegion r root)
    (hv : InRegion r v) (hpath : InRegion r path) : (defineAt root v path).Local r s s' := by
  refine local_store ?_
  split
  · unfold define
    split_ifs
    · exact local_pure h (inRegion_unit _)
    · exact Local.bind (defineFrom_local h hv hroot _ _) fun o _ => local_note o.alike _
  · rw [h.truthy hpath]
    split_ifs
    · exact local_noAttribute h hpath _
    · exact local_pure h (inRegion_unit _)

end Paths

end Alias

namespace Environment

variable {r : Region} {s s' : Store}

theorem defineAll_local (h : Alike r s s') {root : Value} (hroot : InRegion r root)
    (hv : InRegion r v) {paths : List Value} (hpaths : InRegion r paths) :
    (defineAll root v paths).Local r s s' := by
  induction paths generalizing r s s' with
  | nil => exact local_pure h (inRegion_unit _)
  | cons path rest ih =>
    obtain ⟨hpath, hrest⟩ := inRegion_cons.1 hpaths
    refine Local.bind (Alias.defineAt_local h hroot hv hpath) fun o _ => ?_
    exact ih o.alike (hroot.mono o.grows) (hv.mono o.grows) (hrest.mono o.grows)

theorem surfaceFields_local (h : Alike r s s') : surfaceFields.Local r s s' := by
  refine Local.bind (local_new h ?_) fun o hcurrent => ?_
  · simp
  refine Local.bind (local_new o.alike ?_) fun o₁ hrefusal => ?_
  · simp
  refine Local.bind (local_new o₁.alike ?_) fun o₂ holder => ?_
  · simpa using hrefusal
  refine local_pure o₂.alike ?_
  simpa using ⟨hcurrent.mono (o₁.grows.trans o₂.grows), holder⟩

theorem withContext_alike (h : Alike r s s') {names context : Entries} (hnames : InRegion r names)
    (hcontext : InRegion r context) :
    withContext s' names context = withContext s names context ∧
      InRegion r (withContext s names context) := by
  induction context generalizing names with
  | nil => exact ⟨rfl, hnames⟩
  | cons e rest ih =>
    obtain ⟨k, v⟩ := e
    obtain ⟨⟨hk, hv⟩, hrest⟩ : (InRegion r k ∧ InRegion r v) ∧ InRegion r rest := by
      simpa using hcontext
    have hstep (u : Store) : withContext u names ((k, v) :: rest) =
        withContext u (u.insert k v names) rest := rfl
    rw [hstep, hstep, h.insert hk hnames]
    exact ih (Alike.inRegion_insert hk hv hnames) hrest

/-- Building the globals touches nothing but what the context leads to. -/
theorem build_local (h : Alike r s s') {context : Entries} {requirePaths globalPaths : List Value}
    (hcontext : InRegion r context) (hrequire : InRegion r requirePaths)
    (hglobal : InRegion r globalPaths) :
    (build context requirePaths globalPaths).Local r s s' := by
  refine (surfaceFields_local h).bind fun o hfields => ?_
  refine Local.bind (local_new o.alike (inRegion_recordObject.2 hfields)) fun o₁ hsurface => ?_
  refine Local.bind (local_new o₁.alike (inRegion_recordObject.2 (hfields.mono o₁.grows)))
    fun o₂ hanswer => ?_
  have g₂ := o.grows.trans (o₁.grows.trans o₂.grows)
  refine Local.bind (defineAll_local o₂.alike hanswer (hsurface.mono o₂.grows) (hrequire.mono g₂))
    fun o₃ _ => ?_
  have hloader := inRegion_functionObject.2 ⟨inRegion_loader.2 (hanswer.mono o₃.grows), inRegion_nil⟩
  refine Local.bind (local_new o₃.alike hloader) fun o₄ hloader => ?_
  refine Local.bind (local_new o₄.alike (inRegion_recordObject.2 inRegion_nil)) fun o₅ hexports => ?_
  have g₅ := g₂.trans (o₃.grows.trans (o₄.grows.trans o₅.grows))
  refine local_store ?_
  have hnames := inRegion_cons.2 ⟨inRegion_prod.2 ⟨inRegion_str "require", hloader.mono o₅.grows⟩,
    inRegion_cons.2 ⟨inRegion_prod.2 ⟨inRegion_str "module", hexports⟩, inRegion_nil⟩⟩
  obtain ⟨hsame, hentries⟩ := withContext_alike o₅.alike hnames (hcontext.mono g₅)
  dsimp only
  rw [hsame]
  refine Local.bind (local_new o₅.alike (inRegion_mapObject.2 hentries)) fun o₆ hglobals => ?_
  refine Local.bind (defineAll_local o₆.alike hglobals
    (hsurface.mono (o₂.grows.trans (o₃.grows.trans (o₄.grows.trans (o₅.grows.trans o₆.grows)))))
    (hglobal.mono (g₅.trans o₆.grows))) fun o₇ _ => ?_
  exact local_pure o₇.alike (hglobals.mono o₇.grows)

end Environment

end TemplateRecovery
