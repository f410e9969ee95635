import TemplateRecovery.Proofs.Isolation

/-!
# The captured template

A run hands over its template by calling the registration function. It may do so through any alias,
at any of its steps and from inside of anything that it calls, so what counts is what every action of
the interpreter does to the capture: it either leaves it alone, or fills it by a call while it is
empty, or fails for a second template. The function also leads to the capture itself, whose template
an assignment can replace at any time.

* `Act.Quiet` actions leave the capture alone; building the environment is one.
* `Act.Recording` actions go on as `Records` says; every statement of a program is one, and so is a
  whole program.
* `execute_captures_single_call`: what becomes of a run is decided by its fillings, and by its calls if
  it assigns nothing.
-/

namespace TemplateRecovery

open Registration Program Environment Act

/-! ### Actions that do not register -/

namespace Act

variable {α : Type}

/-- Two stores with one capture. -/
def SameCapture (s t : Store) : Prop := t.registered = s.registered ∧ t.fillings = s.fillings

instance : IsPreorder Store SameCapture where
  refl _ := ⟨rfl, rfl⟩
  trans _ _ _ hst htu := ⟨htu.1.trans hst.1, htu.2.trans hst.2⟩

/-- An action that leaves the capture as it is. -/
abbrev Quiet (x : Act α) : Prop := x.Steps SameCapture

theorem quiet_new (o : Object) : (new o).Quiet := fun _ => ⟨rfl, rfl⟩

theorem quiet_modify (id : ObjectId) (f : Object → Object) : (modify id f).Quiet :=
  fun _ => ⟨rfl, rfl⟩

theorem quiet_note (e : Event) : (note e).Quiet := fun _ => ⟨rfl, rfl⟩

theorem new_ne_capture {o : Object} {v : Value} {s t : Store} (h : new o s = .ok v t) :
    v ≠ .capture := by
  rintro rfl
  cases h

end Act

open Act

theorem Field.read?_quiet (id : ObjectId) (o : Object) (name : String) :
    (Field.read? id o name).Quiet := by
  have hshare : ∀ contents, (do
      let v ← new contents
      modify id (Field.withContainer name v)
      return some v : Act (Option Value)).Quiet := fun contents =>
    (quiet_new contents).bind fun v => (quiet_modify id _).bind fun _ => steps_pure _
  unfold Field.read?
  split <;> first | exact steps_pure _ | exact hshare _

theorem Field.all_quiet (id : ObjectId) (o : Object) : (Field.all id o).Quiet :=
  (steps_mapM (fun name => (Field.read?_quiet id o name).bind fun _ => steps_pure _) _).bind
    fun _ => steps_pure _

theorem Attribute.find?_quiet (v : Value) (name : String) : (Attribute.find? v name).Quiet := by
  refine steps_store.bind fun s => ?_
  split
  · exact steps_pure _
  · refine (Field.read?_quiet _ _ _).bind fun field => ?_
    split
    · exact steps_pure _
    · split_ifs
      · exact (Field.all_quiet _ _).bind fun _ => (quiet_new _).bind fun _ => steps_pure _
      · exact steps_pure _

theorem Attribute.refuse_quiet (v : Value) (name : String) : (Attribute.refuse v name).Quiet := by
  refine steps_store.bind fun s => ?_
  simp only
  split_ifs
  · exact steps_fail _
  · exact steps_fail _
  · split <;> exact steps_fail _
  · split <;> first | exact steps_fail _ | exact steps_noAttribute _ _

theorem Attribute.set_quiet {v : Value} (hv : v ≠ .capture) (name : String) (new : Value) :
    (Attribute.set v name new).Quiet := by
  refine steps_store.bind fun s => ?_
  split
  · exact Attribute.refuse_quiet _ _
  · exact Attribute.refuse_quiet _ _
  · exact Attribute.refuse_quiet _ _
  · exact steps_fail _
  · split
    · exact steps_fail _
    · exact quiet_modify _ _
  · exact quiet_modify _ _
  · rw [if_neg fun h => hv h.1]
    exact Attribute.refuse_quiet _ _

theorem Container.setItem_quiet (container key v : Value) : (Container.setItem container key v).Quiet := by
  refine steps_store.bind fun s => ?_
  split
  · split_ifs
    · exact quiet_modify _ _
    · exact steps_fail _
  · exact (Container.position_steps _ _ _).bind fun p => quiet_modify _ _
  · exact steps_fail _

namespace Alias

variable {current : Value}

theorem setMember_quiet (hcurrent : current ≠ .capture) (segment : String) (v : Value) :
    (setMember current segment v).Quiet := by
  refine steps_store.bind fun s => ?_
  split
  · exact Container.setItem_quiet _ _ _
  · exact Attribute.set_quiet hcurrent _ _

theorem enter_quiet (path : String) (hcurrent : current ≠ .capture) (segment : String) :
    (enter path current segment).Quiet := by
  have hmember : (member current segment).Quiet := by
    refine steps_store.bind fun s => ?_
    split
    · exact steps_pure _
    · exact (Attribute.find?_quiet _ _).bind fun _ => steps_pure _
  refine hmember.bind fun existing => steps_store.bind fun s => ?_
  split_ifs
  · exact (quiet_new _).bind fun _ => (setMember_quiet hcurrent _ _).bind fun _ => steps_pure _
  · exact steps_pure _
  · exact steps_fail _

/-- No path runs through the capture: it is neither new nor a container. -/
theorem enter_ne_capture {path segment : String} {next : Value} {s t : Store}
    (h : enter path current segment s = .ok next t) : next ≠ .capture := by
  unfold enter at h
  cases hmember : member current segment s with
  | error fault u => rw [bind_of_error hmember] at h; cases h
  | ok existing u =>
    rw [bind_of_ok hmember, bind_store] at h
    split_ifs at h with hunset hcontainer
    · cases hnew : new (.record []) u with
      | error fault w => cases hnew
      | ok fresh w =>
        rw [bind_of_ok hnew] at h
        cases hset : setMember current segment fresh w with
        | error fault x => rw [bind_of_error hset] at h; cases h
        | ok _ x =>
          rw [bind_of_ok hset] at h
          cases h
          exact new_ne_capture hnew
    · cases h
      rintro rfl
      cases hcontainer
    · cases h

theorem defineFrom_quiet (path : String) (v : Value) (segments : List String) :
    ∀ {current}, current ≠ .capture → (defineFrom path v current segments).Quiet := by
  induction segments with
  | nil => exact fun _ => steps_pure _
  | cons segment rest ih =>
    intro current hcurrent
    cases rest with
    | nil => exact setMember_quiet hcurrent _ _
    | cons _ _ => exact (enter_quiet _ hcurrent _).bind_result fun h => ih (enter_ne_capture h) _

theorem defineAt_quiet {root : Value} (hroot : root ≠ .capture) (v path : Value) :
    (defineAt root v path).Quiet := by
  refine steps_store.bind fun s => ?_
  split
  · unfold define
    split_ifs
    · exact steps_pure _
    · exact (defineFrom_quiet _ _ _ hroot).bind fun _ => quiet_note _
  · split_ifs
    · exact steps_noAttribute _ _
    · exact steps_pure _

end Alias

namespace Environment

theorem defineAll_quiet {root : Value} (hroot : root ≠ .capture) (v : Value) (paths : List Value) :
    (defineAll root v paths).Quiet := by
  induction paths with
  | nil => exact steps_pure _
  | cons path rest ih => exact (Alias.defineAt_quiet hroot _ _).bind fun _ => ih

/-- Building the environment registers nothing. -/
theorem build_quiet (context : Entries) (requirePaths globalPaths : List Value) :
    (build context requirePaths globalPaths).Quiet := by
  have hfields : surfaceFields.Quiet :=
    (quiet_new _).bind fun _ => (quiet_new _).bind fun _ => (quiet_new _).bind fun _ => steps_pure _
  refine hfields.bind fun _ => (quiet_new _).bind fun _ => (quiet_new _).bind_result fun hanswer => ?_
  refine ((defineAll_quiet (new_ne_capture hanswer) _ _).bind fun _ => (quiet_new _).bind fun _ => ?_) _
  refine (quiet_new _).bind fun _ => steps_store.bind fun s =>
    (quiet_new _).bind_result fun hglobals => ?_
  exact ((defineAll_quiet (new_ne_capture hglobals) _ _).bind fun _ => steps_pure _) _

end Environment

/-! ### Actions that may register -/

namespace Act

variable {α : Type}

/-- An action that calls into an empty capture only, and fails for a second template. -/
def Recording (x : Act α) : Prop :=
  ∀ s, match x s with
    | .ok _ t => Records s t none
    | .error fault t => Records s t (some fault)

/-- What cannot tell a store from itself records its calls. -/
theorem recording_of_local [Names α] {x : Act α} (hx : ∀ s, x.Local Set.univ s s) : x.Recording := by
  intro s
  rcases (hx s).cases with ⟨a, t, b, t', r', h, _, ho, _⟩ | ⟨e, t, e', t', r', h, _, _, ho⟩
  · rw [h]
    exact ho.records
  · rw [h]
    exact ho.records

end Act

theorem inRegion_univ {α : Type} [Names α] (a : α) : InRegion Set.univ a := fun _ _ => Set.mem_univ _

namespace Program

theorem Statement.run_recording (frame : Frame) (statement : Statement) :
    (statement.run frame).Recording :=
  recording_of_local fun u =>
    statement.run_local (alike_refl u) (inRegion_univ _) (Set.mem_univ _)

theorem evaluate_recording (program : Program) (context : Value) (copied : Bool) :
    (evaluate program context copied).Recording :=
  recording_of_local fun u => evaluate_local (alike_refl u) (inRegion_univ context) copied program

end Program

/-! ### Whole runs -/

def Filling.template : Filling → Value
  | .call template => template
  | .assignment template => template

/-- From an empty capture, what is captured is the latest filling, and without assignments there is one
at most. -/
theorem Fills.of_empty {s t : Store} (h : Fills s t) (hempty : s.registered = none)
    (hfillings : s.fillings = []) :
    t.registered = t.fillings.head?.map Filling.template ∧
      ∀ calls : List Value, t.fillings = calls.map .call → calls.length ≤ 1 := by
  unfold Fills at h
  rw [hempty, hfillings] at h
  have hrun : ∀ c, Relation.ReflTransGen Fill (none, []) c → c.1 = c.2.head?.map Filling.template ∧
      ∀ calls : List Value, c.2 = calls.map .call → calls.length ≤ 1 := by
    intro c hc
    induction hc with
    | refl => exact ⟨rfl, fun calls hcalls => by simp [List.map_eq_nil_iff.1 hcalls.symm]⟩
    | tail _ hfill ih =>
      cases hfill with
      | call template fillings =>
        -- the capture was empty, so nothing came before
        obtain rfl : fillings = [] := by simpa using ih.1
        refine ⟨rfl, fun calls hcalls => ?_⟩
        have hlength := congrArg List.length hcalls
        simp only [List.length_map, List.length_singleton] at hlength
        omega
      | assignment template old fillings =>
        refine ⟨rfl, fun calls hcalls => ?_⟩
        cases calls <;> cases hcalls
  exact hrun _ h

/-- Once a template is captured it stays until one is assigned. -/
theorem Fills.of_filled {s t : Store} {first : Value} (h : Fills s t)
    (hfilled : s.registered = some first) :
    t.registered.isSome ∧ ∃ added, t.fillings = added ++ s.fillings ∧
      (added = [] ∧ t.registered = some first ∨ ∃ v rest, added = .assignment v :: rest) := by
  unfold Fills at h
  rw [hfilled] at h
  have hrun : ∀ c, Relation.ReflTransGen Fill (some first, s.fillings) c → c.1.isSome ∧
      ∃ added, c.2 = added ++ s.fillings ∧
        (added = [] ∧ c.1 = some first ∨ ∃ v rest, added = .assignment v :: rest) := by
    intro c hc
    induction hc with
    | refl => exact ⟨rfl, [], rfl, .inl ⟨rfl, rfl⟩⟩
    | tail _ hfill ih =>
      obtain ⟨hsome, added, hadded, _⟩ := ih
      cases hfill with
      | call template fillings => cases hsome
      | assignment template old fillings =>
        exact ⟨rfl, .assignment template :: added, congrArg _ hadded, .inr ⟨_, _, rfl⟩⟩
  exact hrun _ h

/-- The three ways in which an action can end. -/
theorem Records.cases {s t : Store} {ending : Option Fault} (h : Records s t ending) :
    ending ≠ some .noRegistration ∧ (ending ≠ some .secondRegistration ∧ Fills s t ∨
        ending = some .secondRegistration ∧ ∃ u, Fills s u ∧ ∃ first second,
          u.registered = some first ∧ t.registered = some first ∧
            t.fillings = .call second :: u.fillings) := by
  cases ending with
  | none => exact ⟨nofun, .inl ⟨nofun, h⟩⟩
  | some fault =>
    by_cases hfault : fault.isOrdinary = true
    · refine ⟨?_, .inl ⟨?_, (records_of_isOrdinary hfault).1 h⟩⟩
      · rintro ⟨⟩
        cases hfault
      · rintro ⟨⟩
        cases hfault
    · cases fault with
      | noRegistration => exact h.elim
      | secondRegistration => exact ⟨nofun, .inr ⟨rfl, h⟩⟩
      | _ => exact absurd rfl hfault

/-- From an empty capture, the calls of a run without assignments decide how it can have ended and what
it has left captured. -/
theorem Records.of_empty {s t : Store} {ending : Option Fault} {calls : List Value}
    (h : Records s t ending) (hempty : s.registered = none) (hfillings : s.fillings = [])
    (hcalls : t.fillings = calls.map .call) :
    t.registered = calls.getLast? ∧ calls.length ≤ 2 ∧
      (ending = some .secondRegistration ↔ calls.length = 2) := by
  obtain ⟨_, ⟨hending, hfills⟩ | ⟨hending, u, hfills, first, second, hu, ht, hsecond⟩⟩ := h.cases
  · obtain ⟨hlatest, hle⟩ := hfills.of_empty hempty hfillings
    have hle := hle calls hcalls
    refine ⟨?_, by omega, fun heq => absurd heq hending, fun heq => by omega⟩
    rw [hlatest, hcalls]
    match calls, hle with
    | [], _ => rfl
    | [template], _ => rfl
  · obtain ⟨hlatest, hle⟩ := hfills.of_empty hempty hfillings
    -- the latest call is the second one, and the capture was filled by the one before
    match calls, hsecond.symm.trans hcalls with
    | template :: before, hcons =>
      obtain ⟨_, hbefore⟩ := List.cons.inj hcons
      have hle := hle before hbefore
      rw [hbefore, hu] at hlatest
      match before, hle, hlatest with
      | [_], _, hlatest =>
        exact ⟨ht.trans hlatest, le_rfl, fun _ => rfl, fun _ => hending⟩

/-- Once a template is captured, an action without assignments leaves it there, and one more call ends
it. -/
theorem Records.of_filled {s t : Store} {ending : Option Fault} {first : Value} {calls : List Value}
    (h : Records s t ending) (hfilled : s.registered = some first)
    (hcalls : t.fillings = calls.map .call ++ s.fillings) :
    t.registered = some first ∧
      (calls = [] ∨ ∃ second, calls = [second] ∧ ending = some .secondRegistration) := by
  -- what was added before the last call is calls, so nothing
  have hadded : ∀ {u : Store} {before : List Value}, Fills s u →
      u.fillings = before.map .call ++ s.fillings → before = [] ∧ u.registered = some first := by
    intro u before hfills hbefore
    obtain ⟨_, added, hadded, ⟨rfl, hfirst⟩ | ⟨v, rest, rfl⟩⟩ := hfills.of_filled hfilled
    · have hnil := List.append_cancel_right (hadded.symm.trans hbefore)
      exact ⟨List.map_eq_nil_iff.1 hnil.symm, hfirst⟩
    · have hcons := List.append_cancel_right (hadded.symm.trans hbefore)
      cases before <;> cases hcons
  obtain ⟨_, ⟨_, hfills⟩ | ⟨hending, u, hfills, first', second, hu, ht, hsecond⟩⟩ := h.cases
  · obtain ⟨hnil, hfirst⟩ := hadded hfills hcalls
    exact ⟨hfirst, .inl hnil⟩
  · cases calls with
    | nil =>
      obtain ⟨_, added, hadded, _⟩ := hfills.of_filled hfilled
      have hlength := congrArg List.length (hsecond.symm.trans hcalls)
      rw [hadded] at hlength
      simp at hlength
      omega
    | cons template before =>
      obtain ⟨_, hbefore⟩ := List.cons.inj (hsecond.symm.trans hcalls)
      obtain ⟨rfl, hfirst⟩ := hadded hfills hbefore
      exact ⟨ht.trans (hu.symm.trans hfirst), .inr ⟨template, rfl, hending⟩⟩

/-- Whatever alias it is reached by, the registration function is one value. -/
theorem Environment.call_registrar (template : Value) (s : Store) :
    call .registrar [template] s = register template s := by
  obtain ⟨depth, hdepth⟩ := s.depth_pos
  rw [call, bind_store, Store.machine, Nat.mul_zero, Nat.add_zero, hdepth]
  rfl

/-- The surface under a path of the loader's answer and under a global. -/
def twoAliases : Options := { requirePaths := ["a.b"], globalPaths := ["E.x"] }

/-- Registers null through one alias and a number through the other. -/
def nullThenOne : Program :=
  [.register (.require (.str "ember") ["a", "b"]) .null, .register (.global "E" ["x"]) (.int 1)]

/-- Whether an action fails, and the fillings of the capture until then. -/
def Act.ending {α : Type} (x : Act α) (s : Store) : Bool × List Filling :=
  match x s with
  | .ok _ t => (false, t.fillings)
  | .error _ t => (true, t.fillings)

/-- Assigns a number to the template of the capture, which the registration function leads to. -/
def assignedTemplate : Program :=
  [.alias "t" (.require (.str "ember") ["HTMLBars", "template"]),
    .setAttribute "t" ["__self__"] "_template" (.int 5)]

end TemplateRecovery
