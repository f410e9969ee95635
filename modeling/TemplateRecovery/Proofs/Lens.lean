import TemplateRecovery.Proofs.Aliases

/-!
# Definitions as a lens

Among mappings and attribute objects that form a tree, a definition reads and writes one place and
nothing else. Of the containers that are there it changes one link of one, the first on its path that
leads to no container; everything after that link is made anew. So a definition that is stopped by a
value in its way has not changed anything yet.

* `Store.follow?` is what a path leads to, `Store.IsTree` says that the containers form a tree.
* `Alias.Stops` says which segment is in the way of a path.
* `Alias.Grafts` says how a definition changes a store: one link, and a chain of new objects behind it.
* `Alias.defineFrom_grafts` and `Alias.defineFrom_stops` are the two ways in which a definition ends.
* `Alias.define_lens` tells what can be read by all paths after a definition.
-/

namespace TemplateRecovery

open Store Act Environment

variable {name : String} {w v c : Value} {names path : List String}

/-! ### Following paths -/

namespace Store

/-- What a path of names leads to, through mappings and attribute objects. -/
def follow? (s : Store) : Value → List String → Option Value
  | v, [] => some v
  | v, name :: rest => (s.link? v name).bind fun w => s.follow? w rest

/-- **The containers under a root form a tree.** One path leads to each of them, and all objects that
paths lead to are there. -/
structure IsTree (s : Store) (root : Value) : Prop where
  live : ∀ path id, s.follow? root path = some (.object id) → ∃ o, s.object? id = some o
  unique : ∀ path path' v, s.IsPlain v → s.follow? root path = some v →
    s.follow? root path' = some v → path = path'

variable {s t : Store} {v : Value}

theorem follow?_cons (s : Store) (v : Value) (name : String) (rest : List String) :
    s.follow? v (name :: rest) = (s.link? v name).bind fun w => s.follow? w rest := rfl

theorem follow?_append (s : Store) (v : Value) (path rest : List String) :
    s.follow? v (path ++ rest) = (s.follow? v path).bind fun w => s.follow? w rest := by
  induction path generalizing v with
  | nil => rfl
  | cons name path ih =>
    rw [List.cons_append, follow?_cons, follow?_cons, Option.bind_assoc]
    exact congrArg _ (funext ih)

theorem follow?_concat (s : Store) (v : Value) (path : List String) (name : String) :
    s.follow? v (path ++ [name]) = (s.follow? v path).bind fun w => s.link? w name := by
  rw [follow?_append]
  refine congrArg _ (funext fun w => ?_)
  rw [follow?_cons]
  cases s.link? w name <;> rfl

/-- Nothing is reached through a value that gives way. -/
theorem link?_of_isUnset (h : Alias.isUnset v = true) (name : String) : s.link? v name = none := by
  cases v with
  | object id => cases h
  | _ => rfl

end Store

namespace Alias

variable {s t : Store} {path : String} {x : Value}

theorem not_isContainer_of_isUnset (h : isUnset v = true) : isContainer s v = false := by
  cases v with
  | object id => cases h
  | label l => cases h
  | _ => rfl

/-! ### One segment -/

/-- A container has under a name what its link leads to. -/
theorem member_of_isPlain (hc : s.IsPlain c) (hname : name ∉ inherentNames) :
    member c name s = .ok ((s.link? c name).getD .null) s := by
  obtain ⟨id, o, rfl, ho, hplain⟩ := hc
  have hdict : name ≠ "__dict__" := by
    rintro rfl
    exact hname (by decide)
  obtain hmember | ⟨hnone, hrecord, hmember⟩ := member_plain ho hplain hdict
  · exact hmember
  · rw [hmember, hnone, typeMember?_of_isRecord ho hrecord hname]

/-- A container is entered as it is. -/
theorem enter_plain (hc : s.IsPlain c) (hname : name ∉ inherentNames)
    (hlink : s.link? c name = some w) (hw : s.IsPlain w) (path : String) :
    enter path c name s = .ok w s := by
  rw [enter, bind_of_ok (member_of_isPlain hc hname), hlink, Option.getD_some, bind_store,
    if_neg, if_pos (isContainer_of_isPlain hw)]
  · rfl
  · obtain ⟨id, o, rfl, -⟩ := hw
    simp [isUnset]

/-- Where there is nothing, or something that gives way, a new object is made. -/
theorem enter_unset (hc : s.IsPlain c) (hname : name ∉ inherentNames)
    (hunset : ∀ w, s.link? c name = some w → isUnset w = true) (path : String) :
    ∃ t, enter path c name s = .ok (.object s.next) t ∧
      Relinks (s.push (.record [])) t c name (.object s.next) := by
  have hc' : (s.push (.record [])).IsPlain c := by
    obtain ⟨id, o, rfl, ho, hplain⟩ := hc
    exact ⟨id, o, rfl, object?_push_of_some ho _, hplain⟩
  obtain ⟨t, hset, hrelinks⟩ := setMember_of_isPlain hc' name (.object s.next)
  have hgives : isUnset ((s.link? c name).getD .null) = true := by
    cases hlink : s.link? c name with
    | none => rfl
    | some w => exact hunset w hlink
  refine ⟨t, ?_, hrelinks⟩
  rw [enter, bind_of_ok (member_of_isPlain hc hname), bind_store, if_pos hgives,
    bind_of_ok (new_apply _ s), bind_of_ok hset]
  rfl

/-! ### What is in the way -/

/-- The segment of a path that is in its way: the path goes on, but the segment holds something that
neither gives way nor lets paths through. -/
def Stops (s : Store) (c : Value) (names : List String) (segment : String) : Prop :=
  ∃ before after d w, names = before ++ segment :: after ∧ after ≠ [] ∧
    s.follow? c before = some d ∧ s.link? d segment = some w ∧ isUnset w = false ∧
    isContainer s w = false

/-- **A definition that is stopped has changed nothing.** -/
theorem defineFrom_stops {segment : String} (h : Stops s c names segment)
    (hnames : ∀ n ∈ names, n ∉ inherentNames) (path : String) (x : Value) :
    defineFrom path x c names s = .error (.pathConflict path segment) s := by
  obtain ⟨before, after, d, w, rfl, hafter, hfollow, hlink, hunset, hclosed⟩ := h
  induction before generalizing c with
  | nil =>
    cases hfollow
    obtain ⟨second, rest, rfl⟩ := List.exists_cons_of_ne_nil hafter
    have henter : enter path d segment s = .error (.pathConflict path segment) s := by
      rw [enter, bind_of_ok (member_of_isPlain (isPlain_of_link? hlink)
        (hnames segment List.mem_cons_self)), hlink, Option.getD_some, bind_store, hunset, hclosed]
      rfl
    exact bind_of_error henter
  | cons name before ih =>
    rw [follow?_cons] at hfollow
    obtain ⟨next, hnext, hfollow⟩ := Option.bind_eq_some_iff.1 hfollow
    -- the path goes on from the next container, so it has links
    have hplain : s.IsPlain next := by
      cases before with
      | nil =>
        cases hfollow
        exact isPlain_of_link? hlink
      | cons second before =>
        obtain ⟨u, hu, -⟩ := Option.bind_eq_some_iff.1 hfollow
        exact isPlain_of_link? hu
    have henter := enter_plain (isPlain_of_link? hnext) (hnames name List.mem_cons_self) hnext
      hplain path
    have hrest := ih (fun n hn => hnames n (List.mem_cons_of_mem _ hn)) hfollow
    obtain ⟨second, rest, hcons⟩ : ∃ second rest, before ++ segment :: after = second :: rest :=
      List.exists_cons_of_ne_nil (by simp)
    rw [hcons] at hrest
    rw [List.cons_append, hcons]
    exact (bind_of_ok henter).trans hrest

/-! ### How a definition changes a store -/

/-- **One link is set, and behind it there is a chain of new objects that ends in a value.** All other
links of the objects that were there are as they were. -/
structure Grafts (s t : Store) (d : Value) (last : String) (after : List String) (x : Value) :
    Prop where
  plain : ∀ v, s.IsPlain v → t.IsPlain v
  link : ∀ v n, (∀ id, v = .object id → ∃ o, s.object? id = some o) → ¬ (v = d ∧ n = last) →
    t.link? v n = s.link? v n
  value : t.follow? d (last :: after) = some x
  missing : ∀ other, ¬ other <+: after → ¬ after <+: other → t.follow? d (last :: other) = none

/-- Setting the last link of a path. -/
theorem grafts_of_relinks {d : Value} {last : String} (h : Relinks s t d last x) :
    Grafts s t d last [] x where
  plain := h.plain
  link v n _ hne := by rw [h.link, if_neg hne]
  value := by
    rw [follow?_cons, h.link, if_pos ⟨rfl, rfl⟩]
    rfl
  missing other _ hext := absurd List.nil_prefix hext

theorem Relinks.live {d : Value} (h : Relinks s t d name x) {id : ObjectId} {o : Object}
    (ho : s.object? id = some o) : ∃ p, t.object? id = some p :=
  ⟨_, Array.getElem?_eq_getElem (h.size ▸ index_lt_of_object? ho)⟩

/-- **Setting a link that gives way.** The rest of the path is defined from a new object behind it, where
there is nothing yet. -/
theorem grafts_of_unset {d : Value} (hd : s.IsPlain d) {last : String} {after : List String}
    (hnames : ∀ n ∈ last :: after, n ∉ inherentNames)
    (hunset : after ≠ [] → ∀ w, s.link? d last = some w → isUnset w = true) (path : String)
    (x : Value) :
    ∃ t, defineFrom path x d (last :: after) s = .ok () t ∧ Grafts s t d last after x := by
  induction after generalizing s d last with
  | nil =>
    obtain ⟨t, hset, ht⟩ := setMember_of_isPlain hd last x
    exact ⟨t, hset, grafts_of_relinks ht⟩
  | cons second rest ih =>
    obtain ⟨hlast, hrest⟩ := List.forall_mem_cons.1 hnames
    obtain ⟨u, henter, hu⟩ := enter_unset hd hlast (hunset (by simp)) path
    have hold : ∀ {v : Value}, (∀ id, v = .object id → ∃ o, s.object? id = some o) →
        v ≠ .object s.next := by
      rintro _ hv rfl
      obtain ⟨o, ho⟩ := hv _ rfl
      exact absurd (index_lt_of_object? ho) (lt_irrefl _)
    have hlive : ∀ id, d = .object id → ∃ o, s.object? id = some o := by
      obtain ⟨id, o, rfl, ho, -⟩ := hd
      rintro _ ⟨⟩
      exact ⟨o, ho⟩
    have hnew : u.object? s.next = some (.record []) := by
      rw [hu.other s.next (hold hlive), object?_push, if_pos rfl]
    have hempty (n : String) : u.link? (.object s.next) n = none := by
      rw [link?_object, hnew]
      rfl
    obtain ⟨t, hdefine, ht⟩ := ih ⟨_, _, rfl, hnew, rfl⟩ hrest fun _ w hw => by
      rw [hempty] at hw
      cases hw
    -- an object that was there has in the end what it had after the link was set
    have hkept {v : Value} {n : String} (hv : ∀ id, v = .object id → ∃ o, s.object? id = some o) :
        t.link? v n = u.link? v n := by
      refine ht.link v n (fun id hid => ?_) fun h => hold hv h.1
      obtain ⟨o, ho⟩ := hv id hid
      exact hu.live (object?_push_of_some ho _)
    have hlink : t.link? d last = some (.object s.next) := by
      rw [hkept hlive, hu.link, if_pos ⟨rfl, rfl⟩]
    refine ⟨t, (bind_of_ok henter).trans hdefine, ?_, fun v n hv hne => ?_, ?_, ?_⟩
    · rintro v ⟨id, o, rfl, ho, hplain⟩
      exact ht.plain _ (hu.plain _ ⟨id, o, rfl, object?_push_of_some ho _, hplain⟩)
    · rw [hkept hv, hu.link, if_neg hne]
      cases v with
      | object y =>
        obtain ⟨p, hp⟩ := hv y rfl
        exact link?_of_object?_eq ((object?_push_of_some hp _).trans hp.symm) n
      | _ => rfl
    · rw [follow?_cons, hlink]
      exact ht.value
    · intro other hpre hext
      rw [follow?_cons, hlink, Option.bind_some]
      cases other with
      | nil => exact absurd List.nil_prefix hpre
      | cons n more =>
        by_cases hn : n = second
        · subst hn
          rw [List.cons_prefix_cons] at hpre hext
          exact ht.missing more (fun h => hpre ⟨rfl, h⟩) fun h => hext ⟨rfl, h⟩
        · rw [follow?_cons, ht.link _ n (by rintro _ ⟨⟩; exact ⟨_, hnew⟩) (by simp [hn]), hempty]
          rfl

/-- The containers that a path runs through are mappings and attribute objects. -/
def RunsThroughPlain (s : Store) (c : Value) (names : List String) : Prop :=
  ∀ before after v, names = before ++ after → after ≠ [] → s.follow? c before = some v →
    isContainer s v = true → s.IsPlain v

/-- **A definition is stopped, or it grafts its value.** It goes through containers to the first name
that leads to none, and sets the link under this name. -/
theorem defineFrom_grafts (hc : s.IsPlain c) (hne : names ≠ [])
    (hplain : RunsThroughPlain s c names) (hnames : ∀ n ∈ names, n ∉ inherentNames) (path : String)
    (x : Value) :
    (∃ segment, Stops s c names segment) ∨
    ∃ before last after d t, names = before ++ last :: after ∧ s.follow? c before = some d ∧
      s.IsPlain d ∧ (after ≠ [] → ∀ w, s.link? d last = some w → isUnset w = true) ∧
      defineFrom path x c names s = .ok () t ∧ Grafts s t d last after x := by
  induction names generalizing c with
  | nil => exact absurd rfl hne
  | cons name rest ih =>
    obtain ⟨hname, hrest⟩ := List.forall_mem_cons.1 hnames
    by_cases hunset : rest ≠ [] → ∀ w, s.link? c name = some w → isUnset w = true
    · obtain ⟨t, hdefine, ht⟩ := grafts_of_unset hc hnames hunset path x
      exact .inr ⟨[], name, rest, c, t, rfl, rfl, hc, hunset, hdefine, ht⟩
    · push Not at hunset
      obtain ⟨hne, w, hlink, hset⟩ := hunset
      obtain ⟨second, rest, rfl⟩ := List.exists_cons_of_ne_nil hne
      by_cases hopen : isContainer s w = true
      · have hfollow : s.follow? c [name] = some w := by
          rw [follow?_cons, hlink]
          rfl
        have hw : s.IsPlain w := hplain [name] (second :: rest) w rfl (by simp) hfollow hopen
        have henter := enter_plain hc hname hlink hw path
        have hbelow : RunsThroughPlain s w (second :: rest) := by
          intro before after v hsplit hafter hv
          refine hplain (name :: before) after v (by rw [hsplit]; rfl) hafter ?_
          rw [follow?_cons, hlink]
          exact hv
        rcases ih hw (by simp) hbelow hrest with
          ⟨segment, before, after, d, u, hsplit, hafter, hd, hu⟩ |
          ⟨before, last, after, d, t, hsplit, hd, hplaind, hgives, hdefine, ht⟩
        · refine .inl ⟨segment, name :: before, after, d, u, by rw [hsplit]; rfl, hafter, ?_, hu⟩
          rw [follow?_cons, hlink]
          exact hd
        · refine .inr ⟨name :: before, last, after, d, t, by rw [hsplit]; rfl, ?_, hplaind, hgives,
            (bind_of_ok henter).trans hdefine, ht⟩
          rw [follow?_cons, hlink]
          exact hd
      · refine .inl ⟨name, [], second :: rest, c, w, rfl, by simp, rfl, hlink, ?_, ?_⟩
        · exact Bool.eq_false_iff.2 hset
        · exact Bool.eq_false_iff.2 hopen

/-! ### What paths lead to afterwards -/

section Tree

variable {root d : Value} {before after : List String} {last : String}

/-- One more name on a path that leads where it led. -/
theorem follow?_step (htree : s.IsTree root) (hd : s.IsPlain d)
    (hbefore : s.follow? root before = some d) (h : Grafts s t d last after x) {path : List String}
    (hpath : t.follow? root path = s.follow? root path) (hne : ¬ (path = before ∧ name = last)) :
    t.follow? root (path ++ [name]) = s.follow? root (path ++ [name]) := by
  rw [follow?_concat, follow?_concat, hpath]
  cases hv : s.follow? root path with
  | none => rfl
  | some v =>
    refine h.link v name (fun id hid => htree.live path id (hid ▸ hv)) ?_
    rintro ⟨rfl, rfl⟩
    exact hne ⟨htree.unique path before v hd hv hbefore, rfl⟩

/-- The way to the changed link is as it was. -/
theorem follow?_before (htree : s.IsTree root) (hd : s.IsPlain d)
    (hbefore : s.follow? root before = some d) (h : Grafts s t d last after x) {path : List String}
    (hpath : path <+: before) : t.follow? root path = s.follow? root path := by
  induction path using List.reverseRecOn with
  | nil => rfl
  | append_singleton path name ih =>
    refine follow?_step htree hd hbefore h (ih ((List.prefix_append _ _).trans hpath)) ?_
    rintro ⟨rfl, rfl⟩
    have hlength := hpath.length_le
    simp at hlength

/-- Behind a link that gives way nothing is reached. -/
theorem follow?_behind (hbefore : s.follow? root before = some d)
    (hgives : ∀ w, s.link? d last = some w → isUnset w = true) {other : List String}
    (hother : other ≠ []) : s.follow? root (before ++ last :: other) = none := by
  rw [follow?_append, hbefore, Option.bind_some, follow?_cons]
  cases hlink : s.link? d last with
  | none => rfl
  | some w =>
    obtain ⟨name, rest, rfl⟩ := List.exists_cons_of_ne_nil hother
    rw [Option.bind_some, follow?_cons, link?_of_isUnset (hgives w hlink)]
    rfl

/-- **A path that is neither a beginning nor a continuation leads where it led.** -/
theorem follow?_other (htree : s.IsTree root) (hd : s.IsPlain d)
    (hbefore : s.follow? root before = some d) (h : Grafts s t d last after x)
    (hgives : after ≠ [] → ∀ w, s.link? d last = some w → isUnset w = true) {path : List String}
    (hpre : ¬ path <+: before ++ last :: after) (hext : ¬ before ++ last :: after <+: path) :
    t.follow? root path = s.follow? root path := by
  induction path using List.reverseRecOn with
  | nil => exact absurd List.nil_prefix hpre
  | append_singleton path name ih =>
    have hext' : ¬ before ++ last :: after <+: path := fun hp =>
      hext (hp.trans (List.prefix_append _ _))
    by_cases hpath : path <+: before ++ last :: after
    · -- the path leaves the other one here: on the way to the changed link, or behind it
      have hway (hp : path <+: before) :
          t.follow? root (path ++ [name]) = s.follow? root (path ++ [name]) := by
        refine follow?_step htree hd hbefore h (follow?_before htree hd hbefore h hp) ?_
        rintro ⟨rfl, rfl⟩
        exact hpre ⟨after, by simp⟩
      rcases List.prefix_or_prefix_of_prefix hpath (List.prefix_append before (last :: after)) with
        hp | ⟨mid, rfl⟩
      · exact hway hp
      · cases mid with
        | nil => exact hway (by simp)
        | cons first mid =>
          rw [List.prefix_append_right_inj, List.cons_prefix_cons] at hpath
          obtain ⟨rfl, -⟩ := hpath
          have hsplit : before ++ first :: mid ++ [name] = before ++ first :: (mid ++ [name]) := by simp
          rw [hsplit] at hpre hext ⊢
          simp only [List.prefix_append_right_inj, List.cons_prefix_cons, true_and] at hpre hext
          have hafter : after ≠ [] := by
            rintro rfl
            exact hext List.nil_prefix
          rw [follow?_behind hbefore (hgives hafter) (by simp), follow?_append,
            follow?_before htree hd hbefore h (List.prefix_refl _), hbefore]
          exact h.missing _ hpre hext
    · refine follow?_step htree hd hbefore h (ih hpath hext') ?_
      rintro ⟨rfl, rfl⟩
      exact hpath (List.prefix_append _ _)

/-- The containers on a path stand before the changed link. -/
theorem prefix_of_container (hbefore : s.follow? root before = some d)
    (hgives : after ≠ [] → ∀ w, s.link? d last = some w → isUnset w = true)
    {front back : List String} (hsplit : before ++ last :: after = front ++ back)
    (hback : back ≠ []) (hv : s.follow? root front = some v) (hopen : isContainer s v = true) :
    front <+: before := by
  have hfront : front <+: before ++ last :: after := ⟨back, hsplit.symm⟩
  rcases List.prefix_or_prefix_of_prefix hfront (List.prefix_append before (last :: after)) with
    hp | ⟨mid, rfl⟩
  · exact hp
  · cases mid with
    | nil => simp
    | cons first mid =>
      rw [List.append_assoc, List.append_cancel_left_eq, List.cons_append, List.cons.injEq] at hsplit
      obtain ⟨rfl, hafter⟩ := hsplit
      have hne : after ≠ [] := by
        rintro rfl
        exact hback (List.append_eq_nil_iff.1 hafter.symm).2
      -- behind the changed link there is no container
      cases mid with
      | nil =>
        rw [follow?_concat, hbefore, Option.bind_some] at hv
        rw [not_isContainer_of_isUnset (hgives hne v hv)] at hopen
        cases hopen
      | cons second mid =>
        rw [follow?_behind hbefore (hgives hne) (by simp)] at hv
        cases hv

end Tree

/-! ### Reading a path -/

/-- Reading a path name by name gives what it leads to. -/
theorem foldlM_child (h : s.follow? c names = some w) :
    names.foldlM child c s = .ok w s := by
  induction names generalizing c with
  | nil =>
    cases h
    rfl
  | cons name rest ih =>
    obtain ⟨next, hnext, hrest⟩ := Option.bind_eq_some_iff.1 h
    rw [List.foldlM_cons, bind_of_ok (child_of_link hnext), ih hrest]

theorem follow?_of_objects_eq (h : t.objects = s.objects) (v : Value) (names : List String) :
    t.follow? v names = s.follow? v names := by
  induction names generalizing v with
  | nil => rfl
  | cons name rest ih =>
    have hlink : t.link? v name = s.link? v name := by
      cases v with
      | object id => exact link?_of_object?_eq (object?_of_objects_eq h id) name
      | _ => rfl
    rw [follow?_cons, follow?_cons, hlink]
    exact congrArg _ (funext ih)

theorem isPlain_of_objects_eq (h : t.objects = s.objects) (hv : s.IsPlain v) : t.IsPlain v := by
  obtain ⟨id, o, rfl, ho, hplain⟩ := hv
  exact ⟨id, o, rfl, (object?_of_objects_eq h id).trans ho, hplain⟩

/-! ### Definitions -/

/-- **A definition is a lens on nested containers.** It fails exactly if a segment is in its way, names
this segment and has changed nothing. Otherwise its path leads to the value, every path that is neither
a beginning nor a continuation of it leads where it led, and the containers on its way are those that
were there. -/
theorem define_lens {root : Value} (hroot : s.IsPlain root) (htree : s.IsTree root) (x : Value)
    (path : String) (hpath : path ≠ "") (hplain : RunsThroughPlain s root (Text.splitAt '.' path))
    (hnames : ∀ n ∈ Text.splitAt '.' path, n ∉ inherentNames) :
    (∀ segment, (∃ t, define root x path s = .error (.pathConflict path segment) t) ↔
      Stops s root (Text.splitAt '.' path) segment) ∧
    (∀ fault t, define root x path s = .error fault t →
      t = s ∧ ∃ segment, fault = .pathConflict path segment) ∧
    ∀ t, define root x path s = .ok () t →
      t.follow? root (Text.splitAt '.' path) = some x ∧
      Environment.follow root path t = .ok x t ∧
      (∀ other, ¬ other <+: Text.splitAt '.' path → ¬ Text.splitAt '.' path <+: other →
        t.follow? root other = s.follow? root other) ∧
      ∀ before after v, Text.splitAt '.' path = before ++ after → after ≠ [] →
        s.follow? root before = some v → isContainer s v = true →
        t.follow? root before = some v ∧ isContainer t v = true := by
  rw [follow, if_neg hpath, define, if_neg hpath]
  generalize hsegments : Text.splitAt '.' path = names at hplain hnames ⊢
  have hne : names ≠ [] := by
    obtain ⟨name, rest, hsplit⟩ := splitAt_eq_cons '.' path
    simp [← hsegments, hsplit]
  have hstopped {segment : String} (h : Stops s root names segment) :
      (defineFrom path x root names >>= fun _ => note (.alias path)) s =
        .error (.pathConflict path segment) s :=
    bind_of_error (defineFrom_stops h hnames path x)
  rcases defineFrom_grafts hroot hne hplain hnames path x with
    ⟨segment, hstops⟩ | ⟨before, last, after, d, u, hsplit, hd, hplaind, hgives, hdefine, hgrafts⟩
  · have hfails := hstopped hstops
    refine ⟨fun other => ⟨?_, fun h => ⟨s, hstopped h⟩⟩, ?_, ?_⟩
    · rintro ⟨t, ht⟩
      rw [hfails] at ht
      cases ht
      exact hstops
    · intro fault t ht
      rw [hfails] at ht
      cases ht
      exact ⟨rfl, segment, rfl⟩
    · intro t ht
      rw [hfails] at ht
      cases ht
  · -- recording the alias changes no object
    obtain ⟨w, hok, hw⟩ : ∃ w, (defineFrom path x root names >>= fun _ => note (.alias path)) s =
        .ok () w ∧ w.objects = u.objects := ⟨_, bind_of_ok hdefine, rfl⟩
    rw [hok]
    refine ⟨fun segment => iff_of_false ?_ fun h => ?_, fun fault t ht => ?_, ?_⟩
    · rintro ⟨t, ht⟩
      cases ht
    · rw [hstopped h] at hok
      cases hok
    · cases ht
    · rintro t ⟨⟩
      have hbefore {path : List String} (hp : path <+: before) :
          w.follow? root path = s.follow? root path :=
        (follow?_of_objects_eq hw root path).trans (follow?_before htree hplaind hd hgrafts hp)
      have hvalue : w.follow? root names = some x := by
        rw [hsplit, follow?_append, hbefore (List.prefix_refl _), hd, Option.bind_some,
          follow?_of_objects_eq hw]
        exact hgrafts.value
      refine ⟨hvalue, foldlM_child hvalue, fun other hpre hext => ?_, ?_⟩
      · rw [follow?_of_objects_eq hw]
        rw [hsplit] at hpre hext
        exact follow?_other htree hplaind hd hgrafts hgives hpre hext
      · intro front back v hfront hback hv hopen
        have hway := prefix_of_container hd hgives (hsplit.symm.trans hfront) hback hv hopen
        refine ⟨(hbefore hway).trans hv, isContainer_of_isPlain ?_⟩
        exact isPlain_of_objects_eq hw (hgrafts.plain v (hplain front back v hfront hback hv hopen))

/-- A mapping with an empty attribute object and a number. -/
def lensStore : Store := { objects := #[.map [(.str "a", .object ⟨1⟩), (.str "z", .int 1)], .record []] }

theorem link?_lensStore (name : String) : lensStore.link? (.object ⟨0⟩) name =
    if name = "a" then some (.object ⟨1⟩) else if name = "z" then some (.int 1) else none := by
  rw [link?_object]
  change lensStore.findName? name [(.str "a", .object ⟨1⟩), (.str "z", .int 1)] = _
  have hne {other : String} (h : name ≠ other) : (Value.str name == .str other) = false := by
    simpa using h
  rw [findName?_eq_lookup, List.lookup_cons, List.lookup_cons]
  split_ifs with ha hz
  · rw [ha, beq_self_eq_true]
  · rw [hne ha, hz, beq_self_eq_true]
  · rw [hne ha, hne hz]
    rfl

theorem follow?_lensStore {path : List String} (h : lensStore.follow? (.object ⟨0⟩) path = some v) :
    path = [] ∧ v = .object ⟨0⟩ ∨ path = ["a"] ∧ v = .object ⟨1⟩ ∨ path = ["z"] ∧ v = .int 1 := by
  cases path with
  | nil =>
    cases h
    exact .inl ⟨rfl, rfl⟩
  | cons name rest =>
    rw [follow?_cons, link?_lensStore] at h
    have hend {w : Value} (hw : ∀ n, lensStore.link? w n = none)
        (hrest : lensStore.follow? w rest = some v) : rest = [] ∧ v = w := by
      cases rest with
      | nil =>
        cases hrest
        exact ⟨rfl, rfl⟩
      | cons n more =>
        rw [follow?_cons, hw] at hrest
        cases hrest
    split_ifs at h with ha hz
    · obtain ⟨rfl, rfl⟩ := hend (fun n => rfl) h
      exact .inr (.inl ⟨by rw [ha], rfl⟩)
    · obtain ⟨rfl, rfl⟩ := hend (fun n => rfl) h
      exact .inr (.inr ⟨by rw [hz], rfl⟩)
    · cases h

theorem isTree_lensStore : lensStore.IsTree (.object ⟨0⟩) := by
  constructor
  · intro path id h
    rcases follow?_lensStore h with ⟨-, hid⟩ | ⟨-, hid⟩ | ⟨-, hid⟩ <;> cases hid
    · exact ⟨_, rfl⟩
    · exact ⟨_, rfl⟩
  · intro path path' v _ h h'
    rcases follow?_lensStore h with ⟨rfl, rfl⟩ | ⟨rfl, rfl⟩ | ⟨rfl, rfl⟩ <;>
      rcases follow?_lensStore h' with ⟨rfl, hv⟩ | ⟨rfl, hv⟩ | ⟨rfl, hv⟩ <;> first | rfl | cases hv

theorem runsThroughPlain_lensStore (names : List String) :
    RunsThroughPlain lensStore (.object ⟨0⟩) names := by
  intro before after v _ _ h hopen
  rcases follow?_lensStore h with ⟨-, rfl⟩ | ⟨-, rfl⟩ | ⟨-, rfl⟩
  · exact ⟨⟨0⟩, _, rfl, rfl, rfl⟩
  · exact ⟨⟨1⟩, _, rfl, rfl, rfl⟩
  · cases hopen

/-- The empty object is kept and gets a new one under the empty name; a number is in the way. -/
theorem define_lens_sample :
    (∃ t, define (.object ⟨0⟩) (.int 5) "a..b" lensStore = .ok () t ∧
      t.follow? (.object ⟨0⟩) ["a", "", "b"] = some (.int 5) ∧
      t.follow? (.object ⟨0⟩) ["a"] = some (.object ⟨1⟩) ∧
      t.follow? (.object ⟨0⟩) ["z"] = lensStore.follow? (.object ⟨0⟩) ["z"]) ∧
    ∃ t, define (.object ⟨0⟩) (.int 5) "z.b" lensStore = .error (.pathConflict "z.b" "z") t := by
  have hroot : lensStore.IsPlain (.object ⟨0⟩) := ⟨⟨0⟩, _, rfl, rfl, rfl⟩
  have hlong : Text.splitAt '.' "a..b" = ["a", "", "b"] := by decide +kernel
  have hshort : Text.splitAt '.' "z.b" = ["z", "b"] := by decide +kernel
  constructor
  · obtain ⟨_, t, ht⟩ : ∃ a t, define (.object ⟨0⟩) (.int 5) "a..b" lensStore = .ok a t :=
      exists_ok (by decide +kernel)
    obtain ⟨-, -, hok⟩ := define_lens hroot isTree_lensStore (.int 5) "a..b" (by decide)
      (runsThroughPlain_lensStore _) (by rw [hlong]; decide)
    obtain ⟨hvalue, -, hother, hkept⟩ := hok t ht
    rw [hlong] at hvalue hother hkept
    refine ⟨t, ht, hvalue, ?_, hother ["z"] (by decide) (by decide)⟩
    exact (hkept ["a"] ["", "b"] (.object ⟨1⟩) rfl (by simp) rfl rfl).1
  · obtain ⟨hstops, -, -⟩ := define_lens hroot isTree_lensStore (.int 5) "z.b" (by decide)
      (runsThroughPlain_lensStore _) (by rw [hshort]; decide)
    rw [hshort] at hstops
    exact (hstops "z").2 ⟨[], ["b"], .object ⟨0⟩, .int 1, rfl, by simp, rfl, rfl, rfl, rfl⟩

/-- A mapping with an expression, whose fields are fixed, and with zero. -/
def fixedStore : Store :=
  { objects := #[.map [(.str "a", .object ⟨1⟩), (.str "n", .int 0)], .expression (.literal (.int 1))] }

/-- An expression counts as a container but takes no new link; and what zero has besides links is lost
when it gives way. -/
theorem define_no_lens :
    (isContainer fixedStore (.object ⟨1⟩) = true ∧
      (define (.object ⟨0⟩) (.int 5) "a.b").succeeds fixedStore = false) ∧
    (Environment.follow (.object ⟨0⟩) "n.real").succeeds fixedStore = true ∧
      (define (.object ⟨0⟩) (.int 5) "n.b" >>= fun _ =>
        Environment.follow (.object ⟨0⟩) "n.real").succeeds fixedStore = false :=
  ⟨⟨rfl, by decide +kernel⟩, by decide +kernel, by decide +kernel⟩

end Alias

end TemplateRecovery
