import TemplateRecovery.Proofs.Exchange
import TemplateRecovery.Recover

/-!
# What follows the positional arguments

A statement may go on after its positional arguments; compilers put the place in the source there.
Two templates that differ in such extras only are recovered alike, to the same tree or the same fault,
however deep the statements that differ are nested.

Templates are compared as they are in one store. What differs, that is the templates themselves, their
arrays and the statements with extras, is held outside of a region that nothing leads out of; all that
is the same, such as builders and arguments, is inside. Extras may be anything at all.

* `Opcode.SameArguments` compares statements, `Opcode.UpToExtras` one level of two templates.
* `Opcode.DifferInExtras` compares whole templates, which may refer to themselves.
* `Opcode.opcodes_ignore_extras` is the result.
-/

namespace TemplateRecovery

open Act Recover Store

variable {args : List Value} {name : String} {i j : Nat}

namespace Opcode

/-- One statement, or two statements with the same positional arguments. -/
inductive SameArguments (r : Region) (s : Store) : Value → Value → Prop
  | same {v : Value} (hv : InRegion r v) : SameArguments r s v v
  | extras {v v' : Value} {tag : StatementTag} {args rest rest' : List Value} (hv : Apart r s v)
      (hv' : Apart r s v') (hlength : args.length = tag.arity) (hargs : InRegion r args)
      (hitems : s.array? v = some (.str tag.name :: (args ++ rest)))
      (hitems' : s.array? v' = some (.str tag.name :: (args ++ rest'))) : SameArguments r s v v'

/-- The members in which templates with different extras are the same. -/
def sharedMembers : List String := ["meta", "buildFragment", "buildRenderNodes"]

/-- Two templates whose statements have the same positional arguments, and whose templates belong
together one by one. -/
structure UpToExtras (R : Value → Value → Prop) (r : Region) (s : Store) (v v' : Value) : Prop where
  apart : Apart r s v
  apart' : Apart r s v'
  truthy : s.truthy v' = s.truthy v
  shared : ∀ name ∈ sharedMembers,
    memberOf s name v' = memberOf s name v ∧ InRegion r (memberOf s name v)
  statements : SameItems r s (SameArguments r s) (memberOf s "statements" v)
    (memberOf s "statements" v')
  templates : SameItems r s (Matched R r) (memberOf s "templates" v) (memberOf s "templates" v')

/-- **Two templates differ in extras only**: they are related by a relation that goes on to the
templates which they refer to. -/
def DifferInExtras (s : Store) (v v' : Value) : Prop :=
  ∃ (r : Region) (R : Value → Value → Prop),
    (∀ id ∈ r, ∀ o, s.object? id = some o → InRegion r o) ∧ R v v' ∧
      ∀ w w', R w w' → UpToExtras R r s w w'

/-! ### Statements -/

theorem StatementTag.ofValue?_name (tag : StatementTag) : ofValue? (.str tag.name) = some tag := by
  cases tag <;> rfl

/-- The positional arguments alone make a statement. -/
theorem Statement.ofArgs_append {tag : StatementTag} (hlength : args.length = tag.arity) :
    ∃ st, ∀ d rest, Statement.ofArgs d tag (args ++ rest) = .ok st := by
  cases tag with
  | inline =>
    obtain ⟨name, ps, hs, rfl⟩ := List.length_eq_three.1 hlength
    exact ⟨_, fun _ _ => rfl⟩
  | «attribute» =>
    obtain ⟨name, value, rfl⟩ := List.length_eq_two.1 hlength
    exact ⟨_, fun _ _ => rfl⟩
  | element =>
    obtain ⟨name, ps, hs, rfl⟩ := List.length_eq_three.1 hlength
    exact ⟨_, fun _ _ => rfl⟩
  | content =>
    obtain ⟨v, rfl⟩ := List.length_eq_one_iff.1 hlength
    exact ⟨_, fun _ _ => rfl⟩
  | block =>
    obtain ⟨name, args, rfl⟩ := List.exists_cons_of_length_eq_add_one hlength
    obtain ⟨ps, args, rfl⟩ := List.exists_cons_of_length_eq_add_one (Nat.succ.inj hlength)
    obtain ⟨hs, template, inverse, rfl⟩ :=
      List.length_eq_three.1 (Nat.succ.inj (Nat.succ.inj hlength))
    exact ⟨_, fun _ _ => rfl⟩

theorem statementOf_append {s : Store} {v : Value} {tag : StatementTag} {rest : List Value}
    {st : Statement} (hitems : s.array? v = some (.str tag.name :: (args ++ rest)))
    (hst : ∀ d rest, Statement.ofArgs d tag (args ++ rest) = .ok st) :
    statementOf s v = .ok st := by
  have hsplit : splitStatement s v = .ok (tag, args ++ rest) := by
    unfold splitStatement
    simp only [hitems, tag.ofValue?_name]
  unfold statementOf
  rw [hsplit]
  exact hst s.display rest

variable {r : Region} {s : Store} {v v' : Value}

theorem SameArguments.readsLater (halike : Alike r s s) (h : SameArguments r s v v') :
    ReadsLater Eq r s s v v' := by
  cases h with
  | same hv => exact readsLater_of_region (fun _ => rfl) hv
  | extras hv hv' hlength hargs hitems hitems' =>
    intro r' t t' o
    obtain ⟨st, hst⟩ := Statement.ofArgs_append hlength
    unfold Reads
    rw [statementOf_append ((hv.kept o).array?.trans hitems) hst,
      statementOf_append ((hv'.kept' halike o).array?.trans hitems') hst]
    refine Statement.related_of_args (fun _ => rfl) ?_ (hst s.display [])
    rw [List.append_nil, ← hlength, List.take_length]
    exact hargs.mono o.grows

/-! ### Templates -/

variable {R : Value → Value → Prop}

/-- Arrays of statements with the same positional arguments are read alike. -/
theorem SameItems.readsLater (h : SameItems r s (SameArguments r s) v v') (halike : Alike r s s)
    {r' : Region} {t t' : Store} (o : Outcome r s s r' t t' none) :
    StatementsRelate Eq r' t t' v v' := by
  cases h with
  | same hv => exact statementsRelate_of_region (fun _ => rfl) o.alike (hv.mono o.grows)
  | arrays hv hv' hitems hitems' hmatch =>
    refine relates_of_ok (statementsOf_of_array? ((hv.kept o).array?.trans hitems))
      (statementsOf_of_array? ((hv'.kept' halike o).array?.trans hitems')) o.alike.outcome_refl ?_
    exact hmatch.imp fun _ _ hargs => (hargs.readsLater halike).later o

namespace UpToExtras

variable (h : UpToExtras R r s v v') (halike : Alike r s s) {r' : Region} {t t' : Store}
  (o : Outcome r s s r' t t' none)

include h halike o

/-- A member that the templates have in common is read alike. -/
theorem member_relates (hname : name ∈ sharedMembers) :
    Relates Eq Same r' t t' (Artifact.member name v) (Artifact.member name v') := by
  have hplain : name ∉ Field.containerNames := by
    simp only [sharedMembers, List.mem_cons, List.not_mem_nil, or_false] at hname
    rcases hname with rfl | rfl | rfl <;> decide
  obtain ⟨hsame, hregion⟩ := h.shared name hname
  exact h.apart.member_relates h.apart' halike o hplain ⟨hsame, hregion.mono o.grows⟩

theorem callBuilder_relates {m : Machine} (hm : m.Local) (hname : name ∈ sharedMembers)
    (hargs : InRegion r' args) :
    Relates Eq Same r' t t' (callBuilder m v name args) (callBuilder m v' name args) :=
  (h.member_relates halike o hname).bind_same fun o' hbuilder =>
    hm.call o'.alike hbuilder (hargs.mono o'.grows)

/-- The templates pass the same checks, or fail the same one first. -/
theorem validate_relates : Relates Eq Same r' t t' (validate v) (validate v') := by
  refine Opcode.validate_relates o.alike (checks_eq o.alike ?_ (fun name hname => ?_) fun name hname => ?_)
  · rw [(h.apart.kept o).truthy, (h.apart'.kept' halike o).truthy, h.truthy]
  · obtain ⟨hsame, hregion⟩ := h.shared name hname
    obtain ⟨hmember, hmember'⟩ := h.apart.memberOf_eq h.apart' halike o name
    rw [hmember, hmember', hsame]
    exact ⟨rfl, hregion.mono o.grows⟩
  · obtain ⟨hmember, hmember'⟩ := h.apart.memberOf_eq h.apart' halike o name
    rw [hmember, hmember']
    simp only [List.mem_cons, List.not_mem_nil, or_false] at hname
    rcases hname with rfl | rfl
    · exact h.statements.array? halike o
    · exact h.templates.array? halike o

omit o in
theorem parts {m : Machine} (hm : m.Local) : Parts Eq m R r s s v v' where
  valid _ _ _ o := h.validate_relates halike o
  fragment _ _ _ o _ hargs := h.callBuilder_relates halike o hm (by decide) hargs
  slots _ _ _ o _ hargs := by
    refine (h.callBuilder_relates halike o hm (by decide) hargs).bind_same fun o' hreturned => ?_
    exact expectSlots_local o'.alike hreturned
  lists _ _ _ o := h.apart.readLists_relates h.apart' halike o (fun _ => rfl)
    (h.statements.readsLater halike o) h.templates

end UpToExtras

/-- **Extras never matter**: two templates that differ in what follows the positional arguments of
their statements, at any level, are recovered to the same tree or fail with the same fault. The trees
are the same down to the identities of their parts. -/
theorem opcodes_ignore_extras {s : Store} {v v' : Value} (h : DifferInExtras s v v') :
    (∃ root t t', Recover.opcodes v s = .ok root t ∧ Recover.opcodes v' s = .ok root t' ∧
      (∃ r, Alike r t t' ∧ InRegion r root) ∧ t'.tree root = t.tree root) ∨
      ∃ fault t t', Recover.opcodes v s = .error fault t ∧ Recover.opcodes v' s = .error fault t' := by
  obtain ⟨r, R, hclosed, hv, hR⟩ := h
  have halike : Alike r s s := ⟨rfl, rfl, rfl, fun _ _ => rfl, hclosed, fun _ => rfl⟩
  have hm := s.machine_local 0
  have hrun := recoverWithin_relates (fun _ => rfl) hm
    (fun hw => (hR _ _ hw).parts halike hm) s.depth halike.outcome_refl (.inr hv)
  have hopcodes : ∀ w, opcodes w s = recoverWithin (s.machine 0) s.depth w s :=
    fun w => bind_store _ s
  rw [hopcodes, hopcodes]
  rcases hrun.cases with ⟨root, t, _, t', r', hx, hy, o, rfl, hroot⟩ | ⟨e, t, _, t', _, hx, hy, rfl, _⟩
  · exact .inl ⟨_, t, t', hx, hy, ⟨r', o.alike, hroot⟩, o.alike.tree hroot⟩
  · exact .inr ⟨e, t, t', hx, hy⟩

def locTemplate (statements templates : Value) : Object :=
  .record [("meta", .object ⟨3⟩), ("buildFragment", .object ⟨0⟩), ("buildRenderNodes", .object ⟨1⟩),
    ("statements", statements), ("templates", templates)]

/-- A template with a block that holds another template, twice: the second time, both have a statement
that ends with a place in the source. -/
def locStore : Store where
  objects := #[
    .function (.routine (.mk .fragment [] (.placeholder .null))) [],
    .function (.routine (.mk .slots [] (.list [.register "fragment"]))) [],
    .list [],
    .record [("revision", .str "Ember@2.0.0")],
    .list [.str "loc", .int 1],
    .list [.str "content", .str "name"],
    .list [.object ⟨5⟩],
    locTemplate (.object ⟨6⟩) (.object ⟨2⟩),
    .list [.str "block", .str "if", .object ⟨2⟩, .object ⟨2⟩, .int 0, .null],
    .list [.object ⟨8⟩],
    .list [.object ⟨7⟩],
    locTemplate (.object ⟨9⟩) (.object ⟨10⟩),
    .list [.str "content", .str "name", .object ⟨4⟩],
    .list [.object ⟨12⟩],
    locTemplate (.object ⟨13⟩) (.object ⟨2⟩),
    .list [.str "block", .str "if", .object ⟨2⟩, .object ⟨2⟩, .int 0, .null, .object ⟨4⟩],
    .list [.object ⟨15⟩],
    .list [.object ⟨14⟩],
    locTemplate (.object ⟨16⟩) (.object ⟨17⟩)]

/-- The templates of `locStore` that belong together. -/
def locPairs : List (Value × Value) :=
  [(.object ⟨11⟩, .object ⟨18⟩), (.object ⟨7⟩, .object ⟨14⟩)]

/-- The first objects of `locStore`, which all its templates share. -/
def locRegion : Region := {id | id.index < 4}

theorem apart_locStore {o : Object} (ho : locStore.object? ⟨i⟩ = some o) (hi : 4 ≤ i) :
    Apart locRegion locStore (.object ⟨i⟩) :=
  ⟨_, o, rfl, Nat.not_lt.2 hi, ho⟩

theorem inRegion_locRegion (hi : i < 4) : InRegion locRegion (Value.object ⟨i⟩) :=
  inRegion_object.2 hi

theorem upToExtras_locStore {R : Value → Value → Prop} {a b a' b' : Value}
    (ho : locStore.object? ⟨i⟩ = some (locTemplate a b))
    (ho' : locStore.object? ⟨j⟩ = some (locTemplate a' b')) (hi : 4 ≤ i) (hj : 4 ≤ j)
    (hstatements : SameItems locRegion locStore (SameArguments locRegion locStore) a a')
    (htemplates : SameItems locRegion locStore (Matched R locRegion) b b') :
    UpToExtras R locRegion locStore (.object ⟨i⟩) (.object ⟨j⟩) where
  apart := apart_locStore ho hi
  apart' := apart_locStore ho' hj
  truthy := by simp only [truthy, ho, ho', locTemplate]
  shared := by
    simp only [sharedMembers, List.mem_cons, List.not_mem_nil, or_false]
    rintro name (rfl | rfl | rfl)
    all_goals
      rw [memberOf_record ho rfl, memberOf_record ho' rfl]
      exact ⟨rfl, inRegion_locRegion (by decide)⟩
  statements := by
    rw [memberOf_record ho rfl, memberOf_record ho' rfl]
    exact hstatements
  templates := by
    rw [memberOf_record ho rfl, memberOf_record ho' rfl]
    exact htemplates

/-- Statements of `locStore` with the same arguments, without and with a place in the source. -/
theorem sameArguments_locStore (tag : StatementTag) (args : List Value)
    (ho : locStore.object? ⟨i⟩ = some (.list (.str tag.name :: args)))
    (ho' : locStore.object? ⟨j⟩ = some (.list (.str tag.name :: (args ++ [.object ⟨4⟩]))))
    (hi : 4 ≤ i) (hj : 4 ≤ j) (hlength : args.length = tag.arity) (hargs : InRegion locRegion args) :
    SameArguments locRegion locStore (.object ⟨i⟩) (.object ⟨j⟩) := by
  have hitems : locStore.array? (.object ⟨i⟩) = some (.str tag.name :: (args ++ [])) := by
    rw [array?, asObject?_of_object? ho, List.append_nil]
  have hitems' : locStore.array? (.object ⟨j⟩) = some (.str tag.name :: (args ++ [.object ⟨4⟩])) := by
    rw [array?, asObject?_of_object? ho']
  exact .extras (apart_locStore ho hi) (apart_locStore ho' hj) hlength hargs hitems hitems'

theorem sameItems_locStore {P : Value → Value → Prop} (ho : locStore.object? ⟨i⟩ = some (.list [v]))
    (ho' : locStore.object? ⟨j⟩ = some (.list [v'])) (hi : 4 ≤ i) (hj : 4 ≤ j) (hP : P v v') :
    SameItems locRegion locStore P (.object ⟨i⟩) (.object ⟨j⟩) := by
  refine .arrays (apart_locStore ho hi) (apart_locStore ho' hj) ?_ ?_ (.cons hP .nil)
  · rw [array?, asObject?_of_object? ho]
  · rw [array?, asObject?_of_object? ho']

theorem locStore_differInExtras : DifferInExtras locStore (.object ⟨11⟩) (.object ⟨18⟩) := by
  refine ⟨locRegion, fun w w' => (w, w') ∈ locPairs, ?_, by decide, ?_⟩
  · have hall : ∀ i < 4, ∀ o ∈ locStore.object? ⟨i⟩, ∀ id ∈ Names.ids o, id.index < 4 := by
      decide +kernel
    exact fun id hid o ho => hall id.index hid o ho
  · intro w w' hw
    simp only [locPairs, List.mem_cons, List.not_mem_nil, or_false, Prod.mk.injEq] at hw
    have hempty := inRegion_locRegion (show 2 < 4 by decide)
    rcases hw with ⟨rfl, rfl⟩ | ⟨rfl, rfl⟩
    · have hblock := sameArguments_locStore .block
        [.str "if", .object ⟨2⟩, .object ⟨2⟩, .int 0, .null] (i := 8) (j := 15) rfl rfl (by decide)
        (by decide) rfl (by simp [hempty])
      exact upToExtras_locStore rfl rfl (by decide) (by decide)
        (sameItems_locStore rfl rfl (by decide) (by decide) hblock)
        (sameItems_locStore rfl rfl (by decide) (by decide) (.inr (by decide)))
    · have hcontent := sameArguments_locStore .content [.str "name"] (i := 5) (j := 12) rfl rfl
        (by decide) (by decide) rfl (by simp)
      exact upToExtras_locStore rfl rfl (by decide) (by decide)
        (sameItems_locStore rfl rfl (by decide) (by decide) hcontent) (.same hempty)

/-- Both templates of `locStore` are recovered, to one tree. -/
theorem opcodes_ignore_extras_locStore : ∃ root t t',
    Recover.opcodes (.object ⟨11⟩) locStore = .ok root t ∧
      Recover.opcodes (.object ⟨18⟩) locStore = .ok root t' ∧ t'.tree root = t.tree root := by
  obtain ⟨root, t, hok⟩ := Act.exists_ok (x := opcodes (.object ⟨11⟩)) (s := locStore)
    (by decide +kernel)
  rcases opcodes_ignore_extras locStore_differInExtras with
    ⟨root', u, u', hx, hy, -, htree⟩ | ⟨fault, u, u', hx, -⟩
  · exact ⟨root', u, u', hx, hy, htree⟩
  · rw [hok] at hx
    cases hx

/-- A statement that is also the argument of another one, without and with one more element. -/
def sharedStore : Store where
  objects := #[
    .function (.routine (.mk .fragment [] (.placeholder .null))) [],
    .function (.routine (.mk .slots [] (.list [.register "fragment", .register "fragment"]))) [],
    .list [],
    .record [("revision", .str "Ember@2.0.0")],
    .list [.str "content", .str "name"],
    .list [.str "content", .str "name", .object ⟨2⟩],
    .list [.str "content", .object ⟨4⟩],
    .list [.str "content", .object ⟨5⟩],
    .list [.object ⟨4⟩, .object ⟨6⟩],
    .list [.object ⟨5⟩, .object ⟨7⟩],
    locTemplate (.object ⟨8⟩) (.object ⟨2⟩),
    locTemplate (.object ⟨9⟩) (.object ⟨2⟩)]

/-- An argument shows what was appended to the statement that it is. -/
theorem extras_shown_by_argument : ∃ root t t', Recover.opcodes (.object ⟨10⟩) sharedStore = .ok root t ∧
    Recover.opcodes (.object ⟨11⟩) sharedStore = .ok root t' ∧ t'.tree root ≠ t.tree root := by
  -- trees have no decidable equality, so their texts are compared
  have hshown : (opcodes (.object ⟨10⟩)).passes sharedStore (fun root t =>
      (opcodes (.object ⟨11⟩)).passes sharedStore fun root' t' => decide (root' = root ∧
        ((t'.tree root).render (.ofInt 4) (.ofInt 0)).toOption ≠
          ((t.tree root).render (.ofInt 4) (.ofInt 0)).toOption)) = true := by
    decide +kernel
  obtain ⟨root, t, h, hpasses⟩ := Act.exists_ok_of_passes hshown
  obtain ⟨root', t', h', htest⟩ := Act.exists_ok_of_passes hpasses
  obtain ⟨rfl, hne⟩ := of_decide_eq_true htest
  exact ⟨root', t, t', h, h', fun heq => hne (by rw [heq])⟩

end Opcode

end TemplateRecovery
