import TemplateRecovery.Proofs.Isolation

/-!
# What a run leaves behind

A run adds the built-in names and its own name to its globals and removes them again, however it ends.
Apart from that the globals hold what the completed statements have left there. A run on a copy of a
context, or on globals that were built from one, changes nothing but what the values of the context
lead to, so the context itself stays what it was unless it is among these.

* `Store.Leads` tells which objects entries lead to.
* `Program.Twin` are two stores whose globals are mappings with the same entries that no value leads to.
  `Program.Statement.run_twin` carries out one statement in both, `Program.run_twin` a program.
* `Program.Completes` splits a run into the statements that were completed and the one that failed.
* `Program.leaves_no_trace` says what a run leaves in its globals and in its context.
-/

namespace TemplateRecovery

open Act Store Act

variable {r : Region} {s : Store} {entries : Entries} {id c : ObjectId} {b v key : Value}
  {done rest program : Program} {e : Value × Value} {name : String} {o o' : Options}

/-! ### Reachable objects -/

/-- The objects that entries name, and those that these objects name in turn. -/
inductive Store.Leads (s : Store) (entries : Entries) : ObjectId → Prop
  | named {id : ObjectId} (h : id ∈ Names.ids entries) : s.Leads entries id
  | through {id id' : ObjectId} {o : Object} (h : s.Leads entries id) (ho : s.object? id = some o)
      (hid : id' ∈ Names.ids o) : s.Leads entries id'

/-- The region of all objects that entries lead to. -/
def Store.led (s : Store) (entries : Entries) : Region := {id | s.Leads entries id}

theorem Store.inRegion_led (s : Store) (entries : Entries) : InRegion (s.led entries) entries :=
  fun _ hid => .named hid

/-- Nothing leads out of a region that is closed. -/
theorem alike_of_closed (h : ∀ id ∈ r, ∀ o, s.object? id = some o → InRegion r o) : Alike r s s :=
  ⟨rfl, rfl, rfl, fun _ _ => rfl, h, fun _ => rfl⟩

theorem Store.alike_led (s : Store) (entries : Entries) : Alike (s.led entries) s s :=
  alike_of_closed fun _ hid _ ho _ hid' => .through hid ho hid'

/-- Entries lead only to what a closed region around them holds. -/
theorem Store.led_subset {s' : Store} (h : Alike r s s') (he : InRegion r entries) :
    s.led entries ⊆ r := by
  intro id hid
  induction hid with
  | named hid => exact he _ hid
  | through _ ho hid ih => exact h.closed _ ih _ ho _ hid

/-- What an action cannot reach stays as it is. -/
theorem Act.Local.object?_after {α : Type} [Names α] {x : Act α} (hx : x.Local r s s) (hid : id ∉ r)
    (hlt : id.index < s.objects.size) : (x.after s).object? id = s.object? id := by
  rcases hx.cases with ⟨a, t, _, _, r', hok, -, o, -⟩ | ⟨e, t, _, _, r', herror, -, -, o⟩
  · rw [after_of_ok hok]
    exact o.kept id hid hlt
  · rw [after_of_error herror]
    exact o.kept id hid hlt

namespace Program

variable {r r' : Region} {s s' t t' : Store} {g g' : ObjectId}

/-! ### Two mappings for globals -/

/-- **Two stores that agree on a region, with globals that hold the same entries.** No value of the
region leads to the globals. -/
structure Twin (g g' : ObjectId) (r : Region) (s s' : Store) : Prop where
  alike : Alike r s s'
  apart : g ∉ r
  apart' : g' ∉ r
  globals : ∃ entries, InRegion r entries ∧ s.object? g = some (.map entries) ∧
    s'.object? g' = some (.map entries)

section Twins

variable (h : Twin g g' r s s')

include h

theorem Twin.entriesOf : entriesOf s' g' = entriesOf s g := by
  obtain ⟨entries, -, hg, hg'⟩ := h.globals
  rw [entriesOf_of_map hg, entriesOf_of_map hg']

theorem Twin.inRegion_entriesOf : InRegion r (Program.entriesOf s g) := by
  obtain ⟨entries, he, hg, -⟩ := h.globals
  rwa [entriesOf_of_map hg]

theorem Twin.sees (hb : InRegion r b) : Sees ⟨g, b⟩ ⟨g', b⟩ r s s' := by
  obtain ⟨entries, -, hg, hg'⟩ := h.globals
  refine ⟨rfl, hb, h.entriesOf, h.inRegion_entriesOf, .inr ⟨⟨h.apart, ?_⟩, h.apart', ?_⟩⟩
  · exact index_lt_of_object? hg
  · rw [← h.alike.size]
    exact index_lt_of_object? hg'

/-- Values go on, and the globals stay what they are. -/
theorem Twin.later {ending : Option Fault} (o : Outcome r s s' r' t t' ending) :
    Twin g g' r' t t' ∧ Program.entriesOf t g = Program.entriesOf s g := by
  obtain ⟨entries, he, hg, hg'⟩ := h.globals
  have hlt := index_lt_of_object? hg
  have hlt' := index_lt_of_object? hg'
  rw [h.alike.size] at hlt'
  have hkept := o.kept g h.apart hlt
  have hkept' := o.kept' g' h.apart' hlt'
  refine ⟨⟨o.alike, o.not_mem h.apart hlt, o.not_mem h.apart' hlt', entries, he.mono o.grows, ?_, ?_⟩,
    entriesOf_of_object?_eq hkept⟩
  · rw [hkept, hg]
  · rw [hkept', hg']

/-- Both globals get other entries, the same ones. -/
theorem Twin.update {c : Entries → Entries}
    (hc : ∀ entries, InRegion r entries → InRegion r (c entries)) :
    Twin g g' r (s.update g (mapEntries c)) (s'.update g' (mapEntries c)) ∧
      Program.entriesOf (s.update g (mapEntries c)) g = c (Program.entriesOf s g) := by
  obtain ⟨entries, he, hg, hg'⟩ := h.globals
  have hnow : (s.update g (mapEntries c)).object? g = some (.map (c entries)) := by
    rw [object?_update, if_pos rfl, hg]
    rfl
  have hnow' : (s'.update g' (mapEntries c)).object? g' = some (.map (c entries)) := by
    rw [object?_update, if_pos rfl, hg']
    rfl
  have hother (u : Store) {x id : ObjectId} (hx : x ∉ r) (hid : id ∈ r) :
      (u.update x (mapEntries c)).object? id = u.object? id := by
    rw [object?_update, if_neg]
    rintro rfl
    exact hx hid
  have hdepth (u : Store) (x id : ObjectId) :
      ((u.update x (mapEntries c)).object? id).map Object.depth = (u.object? id).map Object.depth := by
    rw [object?_update]
    split_ifs
    · rw [Option.map_map]
      exact congrArg (fun f => (u.object? id).map f) (funext (depth_mapEntries c))
    · rfl
  refine ⟨⟨⟨?_, h.alike.tag, h.alike.registered, ?_, ?_, ?_⟩, h.apart, h.apart', c entries,
    hc entries he, hnow, hnow'⟩, ?_⟩
  · simp [h.alike.size]
  · intro id hid
    rw [hother s h.apart hid, hother s' h.apart' hid, h.alike.object id hid]
  · intro id hid o ho
    rw [hother s h.apart hid] at ho
    exact h.alike.closed id hid o ho
  · intro id
    rw [hdepth, hdepth, h.alike.depth]
  · rw [entriesOf_of_map hnow, entriesOf_of_map hg]

theorem rebind_twin (b : Value) (target : Option String) {v : Option Value} (hv : InRegion r v) :
    ∃ t t', rebind ⟨g, b⟩ target v s = .ok () t ∧ rebind ⟨g', b⟩ target v s' = .ok () t' ∧
      Twin g g' r t t' ∧ Program.entriesOf t g = rebound target v (Program.entriesOf s g) := by
  cases target with
  | none => exact ⟨s, s', rfl, rfl, h, rfl⟩
  | some name =>
    rw [rebind_some, rebind_some]
    exact ⟨_, _, rfl, rfl, h.update (inRegion_rebound hv)⟩

/-- **One statement on two mappings.** Both runs end alike; a completed statement has bound or removed
its name, a failed one has left the globals alone. -/
theorem Statement.run_twin (hb : InRegion r b) (statement : Statement)
    (himport : ∀ name, statement = .importModule name → importer? s ⟨g, b⟩ = none) :
    (∃ v t t' r', statement.run ⟨g, b⟩ s = .ok () t ∧ statement.run ⟨g', b⟩ s' = .ok () t' ∧
      r ⊆ r' ∧ Twin g g' r' t t' ∧
      Program.entriesOf t g = rebound statement.target? v (Program.entriesOf s g)) ∨
    ∃ fault t t' r', statement.run ⟨g, b⟩ s = .error fault t ∧
      statement.run ⟨g', b⟩ s' = .error fault t' ∧ Twin g g' r' t t' ∧
      Program.entriesOf t g = Program.entriesOf s g := by
  rw [Statement.run_eq, Statement.run_eq]
  rcases (statement.result_relates h.alike (h.sees hb) (.inr himport)).cases with
    ⟨v, u, v', u', r₁, hok, hok', o, hv⟩ | ⟨fault, u, fault', u', r₁, herror, herror', hfault, o⟩
  · obtain ⟨rfl, hv⟩ := hv
    obtain ⟨hu, hkept⟩ := h.later o
    obtain ⟨t, t', ht, ht', htwin, hentries⟩ := rebind_twin hu b statement.target? hv
    refine .inl ⟨v', t, t', r₁, ?_, ?_, o.grows, htwin, ?_⟩
    · rw [bind_of_ok hok, ht]
    · rw [bind_of_ok hok', ht']
    · rw [hentries, hkept]
  · obtain rfl := hfault
    obtain ⟨hu, hkept⟩ := h.later o
    exact .inr ⟨fault, u, u', r₁, bind_of_error herror, bind_of_error herror', hu, hkept⟩

end Twins

/-! ### Runs and their completed statements -/

theorem run_append_of_ok {f : Frame} (h : run f done s = .ok () t) :
    run f (done ++ rest) s = run f rest t := by
  induction done generalizing s with
  | nil =>
    cases h
    rfl
  | cons statement done ih =>
    obtain ⟨_, u, hu, hdone⟩ := ok_of_bind h
    rw [List.cons_append, run, bind_of_ok hu, ih hdone]

/-- The statements that a run completes, and the store that they leave. The next statement fails, if
there is one. -/
def Completes (f : Frame) (program done : Program) (s t : Store) : Prop :=
  run f done s = .ok () t ∧ (program = done ∨
    ∃ step rest fault u, program = done ++ step :: rest ∧ step.run f t = .error fault u)

theorem exists_completes (f : Frame) (program : Program) (s : Store) :
    ∃ done t, Completes f program done s t := by
  induction program generalizing s with
  | nil => exact ⟨[], s, rfl, .inl rfl⟩
  | cons statement rest ih =>
    cases hstep : statement.run f s with
    | error fault u => exact ⟨[], s, rfl, .inr ⟨statement, rest, fault, u, rfl, hstep⟩⟩
    | ok _ u =>
      obtain ⟨done, t, hdone, hends⟩ := ih u
      refine ⟨statement :: done, t, ?_, ?_⟩
      · rw [run, bind_of_ok hstep, hdone]
      · rcases hends with rfl | ⟨step, later, fault, w, rfl, hfails⟩
        · exact .inl rfl
        · exact .inr ⟨step, later, fault, w, rfl, hfails⟩

/-- A run ends without a fault if all its statements are completed. -/
theorem Completes.run_ok_iff {f : Frame} (h : Completes f program done s t) :
    (∃ u, run f program s = .ok () u) ↔ done = program := by
  obtain ⟨hrun, rfl | ⟨step, rest, fault, u, rfl, hfails⟩⟩ := h
  · exact iff_of_true ⟨t, hrun⟩ rfl
  · rw [run_append_of_ok hrun, run, bind_of_error hfails]
    refine iff_of_false ?_ (by simp)
    rintro ⟨u, ⟨⟩⟩

theorem Completes.subset {f : Frame} (h : Completes f program done s t) : done ⊆ program := by
  obtain ⟨-, rfl | ⟨step, rest, fault, u, rfl, -⟩⟩ := h
  · exact List.Subset.refl _
  · exact List.subset_append_left _ _

/-- Wherever a run comes to an import, the built-in names give nothing to import with. -/
def ImportsNothing (f : Frame) (program : Program) (s : Store) : Prop :=
  ∀ done name rest t, program = done ++ .importModule name :: rest → run f done s = .ok () t →
    importer? t f = none

theorem importsNothing_of_not_mem (h : ∀ name, .importModule name ∉ program) (f : Frame) (s : Store) :
    ImportsNothing f program s := by
  rintro done name rest t rfl
  exact absurd (List.mem_append_right _ List.mem_cons_self) (h name)

theorem ImportsNothing.now {f : Frame} {statement : Statement}
    (h : ImportsNothing f (statement :: rest) s) (name : String)
    (hname : statement = .importModule name) : importer? s f = none :=
  h [] name rest s (by rw [hname]; rfl) rfl

theorem ImportsNothing.later {f : Frame} (h : ImportsNothing f (done ++ rest) s)
    (hdone : run f done s = .ok () t) : ImportsNothing f rest t := by
  rintro more name last u rfl hmore
  refine h (done ++ more) name last u (by rw [List.append_assoc]) ?_
  rw [run_append_of_ok hdone, hmore]

theorem ImportsNothing.tail {f : Frame} {statement : Statement}
    (h : ImportsNothing f (statement :: rest) s) (hstep : statement.run f s = .ok () t) :
    ImportsNothing f rest t := by
  have hone : run f [statement] s = .ok () t := by
    rw [run, bind_of_ok hstep]
    rfl
  exact ImportsNothing.later (show ImportsNothing f ([statement] ++ rest) s from h) hone

theorem ImportsNothing.init {f : Frame} (h : ImportsNothing f (done ++ rest) s) :
    ImportsNothing f done s := by
  rintro first name last t rfl hfirst
  exact h first name (last ++ rest) t (by simp) hfirst

/-- **A program on two mappings.** Both runs end alike, with the same entries. -/
theorem run_twin (h : Twin g g' r s s') (hb : InRegion r b)
    (himport : ImportsNothing ⟨g, b⟩ program s) :
    ∃ t t' r', Twin g g' r' t t' ∧
      (run ⟨g, b⟩ program s = .ok () t ∧ run ⟨g', b⟩ program s' = .ok () t' ∧ r ⊆ r' ∨
        ∃ fault, run ⟨g, b⟩ program s = .error fault t ∧
          run ⟨g', b⟩ program s' = .error fault t') := by
  induction program generalizing r s s' with
  | nil => exact ⟨s, s', r, h, .inl ⟨rfl, rfl, subset_rfl⟩⟩
  | cons statement rest ih =>
    rcases statement.run_twin h hb himport.now with
      ⟨v, u, u', r₁, hok, hok', hr, hu, -⟩ | ⟨fault, u, u', r₁, herror, herror', hu, -⟩
    · obtain ⟨t, t', r₂, ht, hends⟩ := ih hu (hb.mono hr) (himport.tail hok)
      rw [run, run, bind_of_ok hok, bind_of_ok hok']
      refine ⟨t, t', r₂, ht, hends.imp_left ?_⟩
      rintro ⟨ht, ht', hr'⟩
      exact ⟨ht, ht', hr.trans hr'⟩
    · rw [run, run, bind_of_error herror, bind_of_error herror']
      exact ⟨u, u', r₁, hu, .inr ⟨fault, rfl, rfl⟩⟩

/-- After completed statements, still no value leads to the globals. -/
theorem Twin.run (h : Twin g g r s s) (hb : InRegion r b)
    (himport : ImportsNothing ⟨g, b⟩ program s) (hrun : run ⟨g, b⟩ program s = .ok () t) :
    ∃ r', r ⊆ r' ∧ Twin g g r' t t := by
  obtain ⟨u, u', r', hu, ⟨hok, hok', hr⟩ | ⟨fault, herror, -⟩⟩ := run_twin h hb himport
  · rw [hrun] at hok hok'
    cases hok
    cases hok'
    exact ⟨r', hr, hu⟩
  · rw [hrun] at herror
    cases herror

/-! ### Entries that stay -/

/-- Whether a program binds or removes the name that a key is. -/
def Targets (program : Program) (key : Value) : Prop :=
  ∃ statement ∈ program, ∃ name ∈ statement.target?, key = .str name

theorem mem_bindName (he : e.1 ≠ .str name) : e ∈ bindName name v entries ↔ e ∈ entries := by
  induction entries with
  | nil =>
    rw [bindName, Assoc.insert, List.mem_singleton]
    refine iff_of_false ?_ List.not_mem_nil
    rintro rfl
    exact he rfl
  | cons p rest ih =>
    obtain ⟨k, w⟩ := p
    rw [bindName, Assoc.insert]
    split_ifs with hk
    · have hk : k = .str name := by simpa using hk
      have hne (x : Value) : e ≠ (k, x) := by
        rintro rfl
        exact he hk
      simp [hne]
    · simp only [List.mem_cons]
      exact or_congr_right ih

theorem mem_dropNames {names : List String} :
    e ∈ dropNames names entries ↔ e ∈ entries ∧ ∀ name ∈ names, e.1 ≠ .str name := by
  simp [dropNames]

theorem mem_addNames {builtins : Value} {names : List String} (he : ∀ name ∈ names, e.1 ≠ .str name) :
    e ∈ addNames builtins names entries ↔ e ∈ entries := by
  induction names generalizing entries with
  | nil => rfl
  | cons name rest ih =>
    obtain ⟨hname, hrest⟩ := List.forall_mem_cons.1 he
    exact (ih hrest).trans (mem_bindName hname)

theorem mem_rebound {target : Option String} {v : Option Value}
    (he : ∀ name ∈ target, e.1 ≠ .str name) : e ∈ rebound target v entries ↔ e ∈ entries := by
  cases target with
  | none => rfl
  | some name =>
    have he := he name rfl
    cases v with
    | none => exact mem_dropNames.trans (and_iff_left (by simpa using he))
    | some v => exact mem_bindName he

/-- **Completed statements leave every entry alone whose key they do not name.** -/
theorem run_keeps (h : Twin g g r s s) (hb : InRegion r b)
    (himport : ImportsNothing ⟨g, b⟩ program s) (hrun : run ⟨g, b⟩ program s = .ok () t)
    (he : ¬ Targets program e.1) : e ∈ entriesOf t g ↔ e ∈ entriesOf s g := by
  induction program generalizing r s with
  | nil =>
    cases hrun
    rfl
  | cons statement rest ih =>
    obtain ⟨_, u, hu, hrest⟩ := ok_of_bind hrun
    have hkey : ∀ name ∈ statement.target?, e.1 ≠ .str name := fun name hname heq =>
      he ⟨statement, List.mem_cons_self, name, hname, heq⟩
    rcases statement.run_twin h hb himport.now with
      ⟨v, w, w', r₁, hok, hok', hr, hw, hentries⟩ | ⟨fault, w, w', r₁, herror, -, -, -⟩
    · rw [hu] at hok hok'
      cases hok
      cases hok'
      rw [ih hw (hb.mono hr) (himport.tail hu) hrest, hentries]
      · exact mem_rebound hkey
      · rintro ⟨step, hstep, hname⟩
        exact he ⟨step, List.mem_cons_of_mem _ hstep, hname⟩
    · rw [hu] at herror
      cases herror

/-! ### Executing a program -/

/-- The store in which a program runs on globals: the names that were missing are there. -/
def prepared (s : Store) (g : ObjectId) : Store :=
  (s.push builtinsObject).update g
    (mapEntries (addNames (.object s.next) (missingNames s (entriesOf s g))))

/-- Where a program that runs on globals finds names. -/
def frameOn (s : Store) (g : ObjectId) : Frame :=
  ⟨g, ((prepared s g).findName? builtinsName (entriesOf (prepared s g) g)).getD .null⟩

/-- A later store without the names that were missing before. -/
def cleared (s : Store) (g : ObjectId) (t : Store) : Store :=
  t.update g (mapEntries (dropNames (missingNames s (entriesOf s g))))

theorem execute_eq (program : Program) (g : ObjectId) (s : Store) :
    execute program g s = always (run (frameOn s g) program)
      (eject g (missingNames s (entriesOf s g))) (prepared s g) := by
  rw [execute, bind_store, bind_of_ok (inject_apply g _ s), bind_store]
  rfl

theorem execute_of_ok (h : run (frameOn s g) program (prepared s g) = .ok () t) :
    execute program g s = .ok () (cleared s g t) := by
  rw [execute_eq]
  simp only [always, h, eject_apply]
  rfl

theorem execute_of_error {fault : Fault}
    (h : run (frameOn s g) program (prepared s g) = .error fault t) :
    execute program g s = .error fault (cleared s g t) := by
  rw [execute_eq]
  simp only [always, h, eject_apply]
  rfl

theorem execute_ok_iff (program : Program) (g : ObjectId) (s : Store) :
    (∃ u, execute program g s = .ok () u) ↔
      ∃ u, run (frameOn s g) program (prepared s g) = .ok () u := by
  constructor
  · rintro ⟨u, hu⟩
    cases h : run (frameOn s g) program (prepared s g) with
    | ok _ t => exact ⟨t, rfl⟩
    | error fault t =>
      rw [execute_of_error h] at hu
      cases hu
  · rintro ⟨t, ht⟩
    exact ⟨_, execute_of_ok ht⟩

theorem execute_after (program : Program) (g : ObjectId) (s : Store) : (execute program g).after s =
      cleared s g ((run (frameOn s g) program).after (prepared s g)) := by
  cases h : run (frameOn s g) program (prepared s g) with
  | ok _ t => rw [after_of_ok h, after_of_ok (execute_of_ok h)]
  | error fault t => rw [after_of_error h, after_of_error (execute_of_error h)]

theorem entriesOf_cleared (s : Store) (g : ObjectId) (t : Store) :
    entriesOf (cleared s g t) g = dropNames (missingNames s (entriesOf s g)) (entriesOf t g) := by
  have hg : (cleared s g t).object? g = (t.object? g).map
      (mapEntries (dropNames (missingNames s (entriesOf s g)))) := by
    rw [cleared, object?_update, if_pos rfl]
  generalize missingNames s (entriesOf s g) = names at hg ⊢
  simp only [entriesOf, entries?, asObject?, hg]
  cases t.object? g with
  | none => rfl
  | some o => cases o <;> rfl

theorem missingNames_eq (s s' : Store) (entries : Entries) :
    missingNames s' entries = missingNames s entries :=
  List.filter_congr fun name _ => by rw [findName?_eq s' s]

/-- The names that a run adds are added on both sides. -/
theorem Twin.prepared (h : Twin g g' r s s') :
    ∃ r', Twin g g' r' (prepared s g) (prepared s' g') ∧ InRegion r' (frameOn s g).builtins ∧
      frameOn s' g' = ⟨g', (frameOn s g).builtins⟩ := by
  have hpush := h.alike.outcome_push (inRegion_builtinsObject (r := r))
  have hnext : InRegion (insert s.next r) (Value.object s.next) := by simp
  obtain ⟨hp, -⟩ := (h.later hpush).1.update
    (inRegion_addNames hnext (missingNames s (Program.entriesOf s g)))
  have hstore : Program.prepared s' g' = (s'.push builtinsObject).update g'
      (mapEntries (addNames (.object s.next) (missingNames s (Program.entriesOf s g)))) := by
    rw [Program.prepared, h.entriesOf, missingNames_eq s s', h.alike.next]
  rw [← hstore] at hp
  refine ⟨insert s.next r, hp, ?_, ?_⟩
  · exact inRegion_getD (Alike.inRegion_find? hp.inRegion_entriesOf) inRegion_null
  · have hentries : Program.entriesOf (Program.prepared s' g') g' =
        Program.entriesOf (Program.prepared s g) g := hp.entriesOf
    rw [frameOn, hentries, findName?_eq _ (Program.prepared s g)]
    rfl

/-- **Executing a program on two mappings.** -/
theorem execute_twin (h : Twin g g' r s s')
    (himport : ImportsNothing (frameOn s g) program (prepared s g)) :
    ∃ t t' r', Twin g g' r' t t' ∧
      (execute program g s = .ok () t ∧ execute program g' s' = .ok () t' ∨
        ∃ fault, execute program g s = .error fault t ∧ execute program g' s' = .error fault t') := by
  obtain ⟨r₁, hp, hb, hframe⟩ := h.prepared
  obtain ⟨u, u', r₂, hu, hends⟩ := run_twin hp hb himport
  rw [← hframe] at hends
  have ht : Twin g g' r₂ (cleared s g u) (cleared s' g' u') := by
    have hmissing : missingNames s' (entriesOf s' g') = missingNames s (entriesOf s g) := by
      rw [h.entriesOf, missingNames_eq s s']
    rw [cleared, cleared, hmissing]
    exact (hu.update (inRegion_dropNames _)).1
  refine ⟨_, _, r₂, ht, ?_⟩
  rcases hends with ⟨hrun, hrun', -⟩ | ⟨fault, hrun, hrun'⟩
  · exact .inl ⟨execute_of_ok hrun, execute_of_ok hrun'⟩
  · exact .inr ⟨fault, execute_of_error hrun, execute_of_error hrun'⟩

/-! ### What is left in the globals -/

theorem findName?_eq_none_iff :
    s.findName? name entries = none ↔ ∀ e ∈ entries, e.1 ≠ .str name := by
  rw [findName?_eq_lookup, List.lookup_eq_none_iff]
  exact forall₂_congr fun _ _ => bne_iff_ne.trans ne_comm

theorem execute_removes (program : Program) (g : ObjectId) (s : Store)
    (hname : name ∈ missingNames s (entriesOf s g)) :
    ((execute program g).after s).findName? name (entriesOf ((execute program g).after s) g) = none := by
  rw [execute_after, entriesOf_cleared]
  exact findName?_eq_none_iff.2 fun e he => (mem_dropNames.1 he).2 name hname

section Globals

variable (hg : s.object? g = some (.map entries))

include hg

theorem twin_self (happart : ¬ s.Leads entries g) : Twin g g (s.led entries) s s :=
  ⟨s.alike_led entries, happart, happart, entries, s.inRegion_led entries, hg, hg⟩

/-- **The globals hold what the completed statements have left there.** The statement that failed has
added nothing to it. -/
theorem execute_leaves (happart : ¬ s.Leads entries g)
    (himport : ImportsNothing (frameOn s g) program (prepared s g))
    (hdone : Completes (frameOn s g) program done (prepared s g) t) :
    entriesOf ((execute program g).after s) g =
      dropNames (missingNames s entries) (entriesOf t g) := by
  obtain ⟨r₁, hp, hb, -⟩ := (twin_self hg happart).prepared
  have hleft : entriesOf ((run (frameOn s g) program).after (prepared s g)) g = entriesOf t g := by
    rcases hdone with ⟨hrun, rfl | ⟨step, rest, fault, u, rfl, hfails⟩⟩
    · rw [after_of_ok hrun]
    · obtain ⟨r₂, hr, ht⟩ := hp.run hb himport.init hrun
      have herror : run (frameOn s g) (done ++ step :: rest) (prepared s g) = .error fault u := by
        rw [run_append_of_ok hrun, run, bind_of_error hfails]
      rw [after_of_error herror]
      rcases step.run_twin ht (hb.mono hr) (himport.later hrun).now with
        ⟨v, w, w', r₃, hok, -⟩ | ⟨fault', w, w', r₃, hfails', -, -, hentries⟩
      · rw [show step.run ⟨g, (frameOn s g).builtins⟩ t = _ from hfails] at hok
        cases hok
      · rw [show step.run ⟨g, (frameOn s g).builtins⟩ t = _ from hfails] at hfails'
        cases hfails'
        exact hentries
  rw [execute_after, entriesOf_cleared, hleft, entriesOf_of_map hg]

/-- **An entry goes back to the last completed statement that names its key**, or to the globals before
the run if there is none. -/
theorem execute_keeps {before after : Program} {u : Store}
    (happart : ¬ s.Leads entries g) (himport : ImportsNothing (frameOn s g) program (prepared s g))
    (hdone : Completes (frameOn s g) program done (prepared s g) t)
    (hsplit : done = before ++ after) (hbefore : run (frameOn s g) before (prepared s g) = .ok () u)
    (he : ¬ Targets after e.1) : e ∈ entriesOf t g ↔ e ∈ entriesOf u g := by
  obtain ⟨hrun, hends⟩ := hdone
  subst hsplit
  rw [run_append_of_ok hbefore] at hrun
  have himport : ImportsNothing (frameOn s g) (before ++ after) (prepared s g) := by
    rcases hends with rfl | ⟨step, rest, fault, w, rfl, -⟩
    · exact himport
    · exact himport.init
  obtain ⟨r₁, hp, hb, -⟩ := (twin_self hg happart).prepared
  obtain ⟨r₂, hr, hu⟩ := hp.run hb himport.init hbefore
  exact run_keeps hu (hb.mono hr) (himport.later hbefore) hrun he

theorem entriesOf_prepared :
    entriesOf (prepared s g) g = addNames (.object s.next) (missingNames s entries) entries := by
  refine entriesOf_of_map ?_
  rw [prepared, object?_update, if_pos rfl, object?_push_of_some hg, entriesOf_of_map hg]
  rfl

end Globals

/-! ### Copies of a context -/

section Copies

variable (hc : s.object? c = some (.map entries))

include hc

theorem executeOn_of_map (program : Program) :
    executeOn program (.object c) s = execute program c s := by
  rw [executeOn, bind_store, asObject?_of_object? hc]

theorem evaluate_copied (program : Program) : evaluate program (.object c) true s =
      (executeOn program (.object s.next) >>= fun _ => pure (.object s.next))
        (s.push (.map entries)) := by
  have hpairs : Container.pairs (.object c) s = .ok entries s := by
    rw [Container.pairs, bind_store, entries?, asObject?_of_object? hc]
    rfl
  have hglobals : globalsFor (.object c) true s = .ok (.object s.next) (s.push (.map entries)) := by
    change (Container.pairs (.object c) >>= fun entries => new (.map entries)) s = _
    rw [bind_of_ok hpairs]
    rfl
  rw [evaluate, bind_of_ok hglobals]

/-- **Whether a context is copied makes no difference to the globals.** An unused copy lets both runs
number their new objects alike. -/
theorem evaluate_twin (happart : ¬ s.Leads entries c) (hlive : (s.led entries).Within s)
    (himport : ImportsNothing (frameOn (s.push (.map entries)) s.next) program
      (prepared (s.push (.map entries)) s.next)) :
    ∃ t t' left, t.object? s.next = some (.map left) ∧ t'.object? c = some (.map left) ∧
      (∀ id, t.Leads left id → t'.object? id = t.object? id) ∧
      (evaluate program (.object c) true s = .ok (.object s.next) t ∧
          evaluate program (.object c) false (s.push (.map entries)) = .ok (.object c) t' ∨
        ∃ fault, evaluate program (.object c) true s = .error fault t ∧
          evaluate program (.object c) false (s.push (.map entries)) = .error fault t') := by
  have hold {id : ObjectId} {o : Object} (ho : s.object? id = some o) :
      (s.push (.map entries)).object? id = some o := object?_push_of_some ho _
  have halike : Alike (s.led entries) (s.push (.map entries)) (s.push (.map entries)) := by
    refine alike_of_closed fun id hid o ho => ?_
    rw [object?_push, if_neg] at ho
    · exact (s.alike_led entries).closed id hid o ho
    · rintro rfl
      exact hlive.next_not_mem hid
  have hnext : (s.push (.map entries)).object? s.next = some (.map entries) := by
    rw [object?_push, if_pos rfl]
  have htwin : Twin s.next c (s.led entries) (s.push (.map entries)) (s.push (.map entries)) :=
    ⟨halike, hlive.next_not_mem, happart, entries, s.inRegion_led entries, hnext, hold hc⟩
  obtain ⟨t, t', r', ht, hends⟩ := execute_twin htwin himport
  obtain ⟨left, hmem, hleft, hleft'⟩ := ht.globals
  refine ⟨t, t', left, hleft, hleft', fun id hid => ht.alike.object id ?_, ?_⟩
  · exact led_subset ht.alike hmem hid
  · rw [← executeOn_of_map hnext, ← executeOn_of_map (hold hc)] at hends
    have huncopied : evaluate program (.object c) false =
        executeOn program (.object c) >>= fun _ => pure (.object c) := rfl
    rw [evaluate_copied hc, huncopied]
    rcases hends with ⟨hok, hok'⟩ | ⟨fault, herror, herror'⟩
    · rw [bind_of_ok hok, bind_of_ok hok']
      exact .inl ⟨rfl, rfl⟩
    · rw [bind_of_error herror, bind_of_error herror']
      exact .inr ⟨fault, rfl, rfl⟩

/-- A run on a copy of a context changes only what the context leads to. -/
theorem evaluate_keeps (program : Program)
    (hid : ¬ s.Leads entries id) (hlt : id.index < s.objects.size) :
    ((evaluate program (.object c) true).after s).object? id = s.object? id := by
  have o := (s.alike_led entries).outcome_push (inRegion_mapObject.2 (s.inRegion_led entries))
  have hnext : InRegion (insert s.next (s.led entries)) (Value.object s.next) := by simp
  have hrun := Local.bind (executeOn_local o.alike hnext program) fun o' _ =>
    local_pure o'.alike (hnext.mono o'.grows)
  have hne : id ≠ s.next := by
    rintro rfl
    exact lt_irrefl _ hlt
  have hout : id ∉ insert s.next (s.led entries) := by
    simp [hne]
    exact hid
  have hkept := hrun.object?_after hout (by simp; omega)
  rw [after, evaluate_copied hc, ← after, hkept, o.kept id hid hlt]

end Copies

end Program

/-! ### Runs with options -/

namespace Options

/-- The values of a context are those of the mapping it was read from. -/
theorem inRegion_namedEntries {done context : List (String × Value)}
    (h : namedEntries s entries done = .ok context) (he : InRegion r entries)
    (hdone : InRegion r done) : InRegion r context := by
  induction entries generalizing done with
  | nil =>
    cases h
    exact hdone
  | cons e rest ih =>
    obtain ⟨k, v⟩ := e
    obtain ⟨⟨-, hv⟩, hrest⟩ : (InRegion r k ∧ InRegion r v) ∧ InRegion r rest := by simpa using he
    rw [namedEntries] at h
    cases hname : s.text k with
    | error fault =>
      rw [hname] at h
      cases h
    | ok name =>
      rw [hname] at h
      exact ih h hrest (inRegion_set hdone hv)

/-- One entry sets one option, which was not given before. -/
theorem ofEntries_cons {rest : Entries} {given : List Field}
    (h : ofEntries s ((key, v) :: rest) given o = .ok o') :
    ∃ name field p, s.text key = .ok name ∧ field? name = some field ∧ field ∉ given ∧
      o.set s [name] field v = .ok p ∧ ofEntries s rest (field :: given) p = .ok o' := by
  rw [ofEntries] at h
  cases hname : s.text key with
  | error fault =>
    rw [hname] at h
    cases h
  | ok name =>
    simp only [hname, bind, Except.bind] at h
    cases hfield : field? name with
    | none =>
      rw [hfield] at h
      cases h
    | some field =>
      simp only [hfield] at h
      split_ifs at h with hgiven
      · cases h
      · cases hset : o.set s [name] field v with
        | error fault =>
          rw [hset] at h
          cases h
        | ok p =>
          rw [hset] at h
          exact ⟨name, field, p, rfl, hfield, hgiven, hset, h⟩

theorem context_of_set {path : List String} {p : Options} {field : Field}
    (h : o.set s path field v = .ok p) :
    (field = .context → contextOf s path v = .ok p.context) ∧
      (field ≠ .context → p.context = o.context) := by
  cases field with
  | context =>
    refine ⟨fun _ => ?_, fun hne => absurd rfl hne⟩
    rw [set] at h
    cases hcontext : contextOf s path v with
    | error fault =>
      rw [hcontext] at h
      cases h
    | ok context =>
      rw [hcontext] at h
      cases h
      rfl
  | requirePaths =>
    refine ⟨nofun, fun _ => ?_⟩
    rw [set] at h
    cases hpaths : pathsOf s path v <;> rw [hpaths] at h <;> cases h
    rfl
  | globalPaths =>
    refine ⟨nofun, fun _ => ?_⟩
    rw [set] at h
    cases hpaths : pathsOf s path v <;> rw [hpaths] at h <;> cases h
    rfl
  | indent =>
    refine ⟨nofun, fun _ => ?_⟩
    rw [set] at h
    cases hindent : indentOf s path v <;> rw [hindent] at h <;> cases h
    rfl

theorem context_of_given {given : List Field} (h : ofEntries s entries given o = .ok o')
    (hgiven : .context ∈ given) : o'.context = o.context := by
  induction entries generalizing given o with
  | nil =>
    cases h
    rfl
  | cons e rest ih =>
    obtain ⟨key, v⟩ := e
    obtain ⟨name, field, p, -, -, hnew, hset, hrest⟩ := ofEntries_cons h
    have hne : field ≠ .context := by
      rintro rfl
      exact hnew hgiven
    rw [ih hrest (List.mem_cons_of_mem _ hgiven), (context_of_set hset).2 hne]

/-- The context of the options is the one that their entry for it gives. -/
theorem contextOf_of_ofEntries {given : List Field} (h : ofEntries s entries given o = .ok o')
    (hmem : (key, v) ∈ entries) (hname : s.text key = .ok name)
    (hfield : field? name = some .context) : contextOf s [name] v = .ok o'.context := by
  induction entries generalizing given o with
  | nil => cases hmem
  | cons e rest ih =>
    obtain ⟨k, w⟩ := e
    obtain ⟨first, field, p, hfirst, hfield', -, hset, hrest⟩ := ofEntries_cons h
    rcases List.mem_cons.1 hmem with heq | hmem
    · cases heq
      rw [hname] at hfirst
      cases hfirst
      rw [hfield] at hfield'
      cases hfield'
      rw [context_of_given hrest List.mem_cons_self]
      exact (context_of_set hset).1 rfl
    · exact ih hrest hmem

/-- The values of a context are among what the mapping leads to that was given for it. -/
theorem inRegion_context {raw : Value} {given : Entries} (hraw : s.entries? raw = some given)
    (hmem : (key, .object c) ∈ given) (hname : s.text key = .ok name)
    (hfield : field? name = some .context) (hc : s.object? c = some (.map entries))
    (h : ofMapping s raw = .ok o) : InRegion (s.led entries) o.context := by
  have hentries : ofMapping s raw = ofEntries s given [] {} := by
    unfold ofMapping
    rw [hraw]
    cases raw with
    | null => cases hraw
    | _ => rfl
  have hcontext := contextOf_of_ofEntries (hentries.symm.trans h) hmem hname hfield
  unfold contextOf entries? at hcontext
  rw [asObject?_of_object? hc] at hcontext
  exact inRegion_namedEntries hcontext (s.inRegion_led entries) inRegion_nil

end Options

namespace Registration

/-- A run with options changes only what the values of their context lead to. -/
theorem execute_keeps (program : Program) (hcontext : InRegion (s.led entries) o.context)
    (hid : ¬ s.Leads entries id) (hlt : id.index < s.objects.size) :
    ((execute program o).after s).object? id = s.object? id := by
  have hpaths (paths : List String) : InRegion (s.led entries) (paths.map Value.str) := by
    refine inRegion_list.2 fun v hv => ?_
    obtain ⟨text, -, rfl⟩ := List.mem_map.1 hv
    exact inRegion_str text
  have hlocal : (globalsFor o >>= fun globals => Program.evaluate program globals true).Local
      (s.led entries) s s := by
    refine Local.bind (Environment.build_local (s.alike_led entries) (inRegion_named.2 hcontext)
      (hpaths _) (hpaths _)) fun o' hglobals => ?_
    exact Program.evaluate_local o'.alike hglobals true program
  -- what was captured is only read
  have hafter : (execute program o).after s =
      (globalsFor o >>= fun globals => Program.evaluate program globals true).after s := by
    have hexecute : execute program o =
        (globalsFor o >>= fun globals => Program.evaluate program globals true) >>=
          fun _ => Environment.captured := by
      rw [execute, bind_assoc]
    cases hrun : (globalsFor o >>= fun globals => Program.evaluate program globals true) s with
    | error fault t => rw [hexecute, after_of_error (bind_of_error hrun), after_of_error hrun]
    | ok v t =>
      rw [after_of_ok hrun, hexecute, after, bind_of_ok hrun, Environment.captured, bind_store]
      cases t.registered <;> rfl
  rw [hafter]
  exact hlocal.object?_after hid hlt

end Registration

namespace Program

/-! ### What a run leaves behind -/

/-- Only mappings can be run on. -/
theorem evaluate_uncopied_of_none {context : Value} (hnull : context ≠ .null)
    (hcontext : s.entries? context = none) (program : Program) :
    ∃ fault, evaluate program context false s = .error fault s := by
  have hon : ∃ fault, executeOn program context s = .error fault s := by
    rw [executeOn, bind_store]
    cases context with
    | object id =>
      rw [entries?] at hcontext
      rw [asObject?] at hcontext ⊢
      cases ho : s.object? id with
      | none => exact ⟨_, rfl⟩
      | some o =>
        rw [ho] at hcontext
        cases o with
        | map entries => cases hcontext
        | list items => exact noAttribute_eq _ _ _
        | tuple items => exact noAttribute_eq _ _ _
        | _ => exact ⟨_, rfl⟩
    | str text => exact noAttribute_eq _ _ _
    | _ => exact ⟨_, rfl⟩
  obtain ⟨fault, hfault⟩ := hon
  have hglobals : globalsFor context false = pure context := by
    cases context <;> first | rfl | exact absurd rfl hnull
  refine ⟨fault, ?_⟩
  rw [evaluate, hglobals, pure_bind, bind_of_error hfault]

theorem mem_entriesOf_prepared (hg : s.object? g = some (.map entries))
    (he : ∀ name ∈ missingNames s entries, e.1 ≠ .str name) :
    e ∈ entriesOf (prepared s g) g ↔ e ∈ entries := by
  rw [entriesOf_prepared hg]
  exact mem_addNames he

theorem ne_of_missing (he : e ∈ entries) (hname : name ∈ missingNames s entries) :
    e.1 ≠ .str name := by
  have hnone : s.findName? name entries = none := by
    simpa [missingNames] using (List.mem_filter.1 hname).2
  exact findName?_eq_none_iff.1 hnone e he

/-- What a run leaves behind, whatever the program is and wherever it fails.

The injected names that the globals lacked are absent afterwards, and all else is as the statements have
left it. If no value leads to the globals, this is what the completed statements have left; an entry
whose key they do not name is as it was, among them the injected names that were there. It makes no
difference then whether a context is copied: both globals hold the same entries, which lead to the same
objects. Null gives empty globals in both cases, and what is no mapping can only be copied. A copied
context, and the context of options, is as it was unless its own values lead to it. -/
theorem leaves_no_trace (program : Program) (s : Store) :
    (∀ g, (∀ name ∈ injectedNames, s.findName? name (entriesOf s g) = none →
        ((execute program g).after s).findName? name
          (entriesOf ((execute program g).after s) g) = none) ∧
      entriesOf ((execute program g).after s) g = dropNames (missingNames s (entriesOf s g))
        (entriesOf ((run (frameOn s g) program).after (prepared s g)) g) ∧
      ∀ id, id ≠ g → ((execute program g).after s).object? id =
        ((run (frameOn s g) program).after (prepared s g)).object? id) ∧
    (∀ g entries, s.object? g = some (.map entries) → ¬ s.Leads entries g →
      ImportsNothing (frameOn s g) program (prepared s g) →
      ∃ done t, Completes (frameOn s g) program done (prepared s g) t ∧
        ((∃ u, execute program g s = .ok () u) ↔ done = program) ∧
        entriesOf ((execute program g).after s) g =
          dropNames (missingNames s entries) (entriesOf t g) ∧
        (∀ before after u, done = before ++ after →
          run (frameOn s g) before (prepared s g) = .ok () u →
          ∀ e, ¬ Targets after e.1 → (e ∈ entriesOf t g ↔ e ∈ entriesOf u g)) ∧
        ∀ e, ¬ Targets done e.1 → (e ∈ entriesOf ((execute program g).after s) g ↔ e ∈ entries)) ∧
    (∀ c entries, s.object? c = some (.map entries) → ¬ s.Leads entries c →
      (s.led entries).Within s →
      ImportsNothing (frameOn (s.push (.map entries)) s.next) program
        (prepared (s.push (.map entries)) s.next) →
      ∃ t t' left, t.object? s.next = some (.map left) ∧ t'.object? c = some (.map left) ∧
        (∀ id, t.Leads left id → t'.object? id = t.object? id) ∧
        (evaluate program (.object c) true s = .ok (.object s.next) t ∧
            evaluate program (.object c) false (s.push (.map entries)) = .ok (.object c) t' ∨
          ∃ fault, evaluate program (.object c) true s = .error fault t ∧
            evaluate program (.object c) false (s.push (.map entries)) = .error fault t')) ∧
    evaluate program .null true = evaluate program .null false ∧
    (∀ context, context ≠ .null → s.entries? context = none →
      ∃ fault, evaluate program context false s = .error fault s) ∧
    (∀ c entries, s.object? c = some (.map entries) →
      ∀ id, id.index < s.objects.size → ¬ s.Leads entries id →
        ((evaluate program (.object c) true).after s).object? id = s.object? id) ∧
    ∀ raw given key name c entries o, s.entries? raw = some given → (key, .object c) ∈ given →
      s.text key = .ok name → Options.field? name = some .context →
      s.object? c = some (.map entries) → Options.ofMapping s raw = .ok o →
      ∀ id, id.index < s.objects.size → ¬ s.Leads entries id →
        ((Registration.execute program o).after s).object? id = s.object? id := by
  refine ⟨fun g => ⟨?_, ?_, ?_⟩, ?_, ?_, rfl, ?_, ?_, ?_⟩
  · intro name hname hnone
    exact execute_removes program g s (List.mem_filter.2 ⟨hname, by simp [hnone]⟩)
  · rw [execute_after, entriesOf_cleared]
  · intro id hid
    rw [execute_after, cleared, object?_update, if_neg hid]
  · intro g entries hg happart himport
    obtain ⟨done, t, hdone⟩ := exists_completes (frameOn s g) program (prepared s g)
    have hleft := execute_leaves hg happart himport hdone
    have hkeeps : ∀ before after u, done = before ++ after →
        run (frameOn s g) before (prepared s g) = .ok () u →
        ∀ e : Value × Value, ¬ Targets after e.1 → (e ∈ entriesOf t g ↔ e ∈ entriesOf u g) :=
      fun before after u hsplit hbefore e he =>
        execute_keeps hg happart himport hdone hsplit hbefore he
    refine ⟨done, t, hdone, ?_, hleft, hkeeps, ?_⟩
    · rw [execute_ok_iff, hdone.run_ok_iff]
    · -- the program as a whole starts from the prepared globals
      intro e he
      rw [hleft, mem_dropNames, hkeeps [] done (prepared s g) rfl rfl e he]
      constructor
      · rintro ⟨hmem, hkey⟩
        exact (mem_entriesOf_prepared hg hkey).1 hmem
      · intro hmem
        have hkey : ∀ name ∈ missingNames s entries, e.1 ≠ .str name := fun name hname =>
          ne_of_missing hmem hname
        exact ⟨(mem_entriesOf_prepared hg hkey).2 hmem, hkey⟩
  · intro c entries hc happart hlive himport
    exact evaluate_twin hc happart hlive himport
  · intro context hnull hcontext
    exact evaluate_uncopied_of_none hnull hcontext program
  · intro c entries hc id hlt hid
    exact evaluate_keeps hc program hid hlt
  · intro raw given key name c entries o hraw hmem hname hfield hc ho id hlt hid
    refine Registration.execute_keeps program ?_ hid hlt
    exact Options.inRegion_context hraw hmem hname hfield hc ho

def ownEntries : Entries := [(.str "__name__", .str "mine"), (.str "a", .int 1)]

def ownStore : Store := { objects := #[.map ownEntries] }

/-- Binds a name, and then fails for want of another. -/
def halfDone : Program := [.setName "b" (.int 2), .read (.global "nowhere" [])]

theorem not_leads_ownEntries (id : ObjectId) : ¬ ownStore.Leads ownEntries id := by
  intro h
  induction h with
  | named hid => exact List.not_mem_nil hid
  | through _ _ _ ih => exact ih

/-- The run fails at its second statement. The caller keeps its own name and gets the one of the first
statement; a copy leaves everything as it was. -/
theorem leaves_no_trace_halfDone :
    ¬ ownStore.Leads ownEntries ⟨0⟩ ∧
      ImportsNothing (frameOn ownStore ⟨0⟩) halfDone (prepared ownStore ⟨0⟩) ∧
      ((execute halfDone ⟨0⟩).after ownStore).findName? builtinsName
        (entriesOf ((execute halfDone ⟨0⟩).after ownStore) ⟨0⟩) = none ∧
      (.str "__name__", .str "mine") ∈ entriesOf ((execute halfDone ⟨0⟩).after ownStore) ⟨0⟩ ∧
      ((evaluate halfDone (.object ⟨0⟩) true).after ownStore).object? ⟨0⟩ =
        some (.map ownEntries) := by
  have himport (f : Frame) (s : Store) : ImportsNothing f halfDone s :=
    importsNothing_of_not_mem (by simp [halfDone]) f s
  obtain ⟨hgone, hkept, -, -, -, hcopied, -⟩ := leaves_no_trace halfDone ownStore
  obtain ⟨done, t, hdone, -, -, -, hentries⟩ := hkept ⟨0⟩ ownEntries rfl
    (not_leads_ownEntries _) (himport _ _)
  have htargets : ¬ Targets done (.str "__name__") := by
    rintro ⟨statement, hmem, name, hname, hkey⟩
    have hmem := hdone.subset hmem
    simp only [halfDone, List.mem_cons, List.not_mem_nil, or_false] at hmem
    rcases hmem with rfl | rfl
    · cases hname
      simp at hkey
    · cases hname
  refine ⟨not_leads_ownEntries _, himport _ _, ?_, ?_, ?_⟩
  · exact (hgone ⟨0⟩).1 builtinsName (by simp [injectedNames]) (by decide +kernel)
  · exact (hentries _ htargets).2 List.mem_cons_self
  · exact hcopied ⟨0⟩ ownEntries rfl ⟨0⟩ Nat.zero_lt_one (not_leads_ownEntries _)

/-- A list of one pair, which can be read as entries. -/
def pairStore : Store := { objects := #[.list [.object ⟨1⟩], .list [.str "a", .int 1]] }

/-- A mapping that holds itself. -/
def selfStore : Store := { objects := #[.map [(.str "me", .object ⟨0⟩)]] }

/-- Pairs will do for a context only if it is copied; and a context that holds itself is reached through
its copy. -/
theorem context_traces :
    ((∃ g t, evaluate [] (.object ⟨0⟩) true pairStore = .ok g t) ∧
        ∃ fault t, evaluate [] (.object ⟨0⟩) false pairStore = .error fault t) ∧
      entriesOf selfStore ⟨0⟩ = [(.str "me", .object ⟨0⟩)] ∧
      entriesOf ((evaluate [.setItem "me" (.str "x") (.int 1)] (.object ⟨0⟩) true).after selfStore) ⟨0⟩ =
        [(.str "me", .object ⟨0⟩), (.str "x", .int 1)] := by
  refine ⟨⟨exists_ok (by decide +kernel), ?_⟩, rfl, by decide +kernel⟩
  obtain ⟨fault, hfault⟩ : ∃ fault, evaluate [] (.object ⟨0⟩) false pairStore = .error fault pairStore :=
    evaluate_uncopied_of_none (by simp) rfl []
  exact ⟨fault, pairStore, hfault⟩

end Program

end TemplateRecovery
