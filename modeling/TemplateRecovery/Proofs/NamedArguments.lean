import TemplateRecovery.Proofs.Coding

/-!
# Named arguments from pairs

Named arguments are given as a flat array of names and values, or as a mapping. The array is read pair
by pair under the texts of the names. The mapping has been filled under the names themselves before it
is read under their texts. As long as no name comes back after another name of the same text, the two
give the same arguments in the same order.

* `Assoc.keys_ofPairs` and `Assoc.lookup_ofPairs` say what inserting pairs in order amounts to.
* `Assoc.ofPairs_spelled` compares inserting under texts with inserting under names first.
* `named_arguments_of_pairs` is the result.
-/

namespace TemplateRecovery

open Assoc Opcode Store Hook

/-! ### Inserting pairs in order -/

section Firsts

variable {α β : Type} [BEq α] [LawfulBEq α] [BEq β] [LawfulBEq β]

theorem eraseDups_concat (l : List α) (a : α) :
    (l ++ [a]).eraseDups = if a ∈ l then l.eraseDups else l.eraseDups ++ [a] := by
  rw [List.eraseDups_append]
  split_ifs with h <;> simp [List.removeAll, h, List.eraseDups_cons]

theorem nodup_eraseDups (l : List α) : l.eraseDups.Nodup := by
  induction l using List.reverseRecOn with
  | nil => simp
  | append_singleton l a ih =>
    rw [eraseDups_concat]
    split_ifs with h
    · exact ih
    · refine List.nodup_append.2 ⟨ih, List.nodup_singleton a, fun b hb c hc => ?_⟩
      rw [List.mem_singleton.1 hc]
      exact fun hba => h (hba ▸ List.mem_eraseDups.1 hb)

/-- Repetitions that are dropped before are dropped after. -/
theorem eraseDups_map_eraseDups (f : α → β) (l : List α) :
    (l.eraseDups.map f).eraseDups = (l.map f).eraseDups := by
  induction l using List.reverseRecOn with
  | nil => simp
  | append_singleton l a ih =>
    rw [eraseDups_concat, List.map_append, List.map_singleton, eraseDups_concat]
    split_ifs with ha hfa hfa
    · exact ih
    · exact absurd (List.mem_map_of_mem ha) hfa
    · rw [List.map_append, List.map_singleton, eraseDups_concat, if_pos (by simpa using hfa), ih]
    · rw [List.map_append, List.map_singleton, eraseDups_concat, if_neg (by simpa using hfa), ih]

end Firsts

namespace Assoc

variable {κ κ' ν ν' : Type}

theorem ofPairs_concat (same : κ → κ → Bool) (pairs : List (κ × ν)) (p : κ × ν) :
    ofPairs same (pairs ++ [p]) = insert same p.1 p.2 (ofPairs same pairs) := by
  simp [ofPairs]

/-- Pairs can be renamed before they are inserted, if different keys stay different. -/
theorem ofPairs_map (same : κ → κ → Bool) (same' : κ' → κ' → Bool) {f : κ → κ'}
    (hf : ∀ a b, same' (f a) (f b) = same a b) (g : ν → ν') (pairs : List (κ × ν)) :
    ofPairs same' (pairs.map (Prod.map f g)) = (ofPairs same pairs).map (Prod.map f g) := by
  have hinsert (k : κ) (v : ν) (entries : List (κ × ν)) :
      insert same' (f k) (g v) (entries.map (Prod.map f g)) =
        (insert same k v entries).map (Prod.map f g) := by
    induction entries with
    | nil => rfl
    | cons e rest ih =>
      simp only [List.map_cons, insert, Prod.map_fst, Prod.map_snd, hf, ih]
      split_ifs <;> rfl
  induction pairs using List.reverseRecOn with
  | nil => rfl
  | append_singleton pairs p ih =>
    rw [List.map_append, List.map_singleton, ofPairs_concat, ofPairs_concat, ih, ← hinsert]
    rfl

variable [BEq κ] [LawfulBEq κ]

/-- The keys are those of the pairs, in the order in which they came first. -/
theorem keys_ofPairs (pairs : List (κ × ν)) :
    (ofPairs (· == ·) pairs).map Prod.fst = (pairs.map Prod.fst).eraseDups := by
  induction pairs using List.reverseRecOn with
  | nil => rfl
  | append_singleton pairs p ih =>
    rw [ofPairs_concat, keys_insert, ih, List.map_append, List.map_singleton, eraseDups_concat]
    simp only [List.mem_eraseDups]

/-- A key has the value of the last pair that it is in. -/
theorem lookup_ofPairs (pairs : List (κ × ν)) (k : κ) :
    (ofPairs (· == ·) pairs).lookup k = pairs.reverse.lookup k := by
  induction pairs using List.reverseRecOn with
  | nil => rfl
  | append_singleton pairs p ih =>
    rw [ofPairs_concat, lookup_insert, ih, List.reverse_append, List.reverse_singleton,
      List.singleton_append, List.lookup_cons]
    cases k == p.1 <;> rfl

theorem lookup_of_mem {entries : List (κ × ν)} (h : (entries.map Prod.fst).Nodup) :
    ∀ e ∈ entries, entries.lookup e.1 = some e.2 := by
  induction entries with
  | nil => simp
  | cons e rest ih =>
    rw [List.map_cons, List.nodup_cons] at h
    refine List.forall_mem_cons.2 ⟨by rw [List.lookup_cons, beq_self_eq_true], fun e' he' => ?_⟩
    have hne : (e'.1 == e.1) = false := by
      rw [beq_eq_false_iff_ne]
      exact fun heq => h.1 (heq ▸ List.mem_map_of_mem he')
    rw [List.lookup_cons, hne]
    exact ih h.2 e' he'

/-- Two associations with the same keys in the same order and the same values are one. -/
theorem eq_of_lookup {entries others : List (κ × ν)} (hnodup : (entries.map Prod.fst).Nodup)
    (hkeys : entries.map Prod.fst = others.map Prod.fst)
    (h : ∀ k, entries.lookup k = others.lookup k) : entries = others := by
  have hpair {l : List (κ × ν)} (hl : (l.map Prod.fst).Nodup) :
      l.map (fun e => (e.1, some e.2)) = (l.map Prod.fst).map fun k => (k, l.lookup k) := by
    rw [List.map_map]
    exact List.map_congr_left fun e he => congrArg (Prod.mk e.1) (lookup_of_mem hl e he).symm
  have hinj : Function.Injective fun e : κ × ν => (e.1, some e.2) := by
    rintro ⟨k, v⟩ ⟨k', v'⟩ heq
    simpa using heq
  refine List.map_injective_iff.2 hinj ?_
  rw [hpair hnodup, hpair (hkeys ▸ hnodup), hkeys]
  simp only [h]

/-! ### Names of one text -/

variable {f : κ → String}

omit [BEq κ] [LawfulBEq κ] in
theorem lookup_spelled {μ : Type} [BEq μ] [LawfulBEq μ] (f : κ → μ) (entries : List (κ × ν))
    (name : μ) : (entries.map (Prod.map f id)).lookup name =
      (entries.find? fun e => f e.1 == name).map Prod.snd := by
  induction entries with
  | nil => rfl
  | cons e rest ih =>
    rw [List.map_cons, List.lookup_cons, List.find?_cons, ih, Prod.map_fst, BEq.comm]
    cases f e.1 == name <;> rfl

omit [BEq κ] [LawfulBEq κ] in
/-- The value of the first entry of a text, found by its key. -/
theorem find?_keys_bind {entries : List (κ × ν)} {name : String} {g : κ → Option ν}
    (h : ∀ e, entries.find? (fun e => f e.1 == name) = some e → g e.1 = some e.2) :
    ((entries.map Prod.fst).find? (f · == name)).bind g =
      (entries.find? fun e => f e.1 == name).map Prod.snd := by
  rw [List.find?_map]
  change ((entries.find? fun e => f e.1 == name).map Prod.fst).bind g = _
  cases hfind : entries.find? fun e => f e.1 == name with
  | none => rfl
  | some e => exact h e hfind

/-- The key of a text that came in last. -/
def latest (f : κ → String) (keys : List κ) (name : String) : Option κ :=
  keys.eraseDups.reverse.find? (f · == name)

/-- No key comes back after another one of the same text. -/
def Settled (f : κ → String) (keys : List κ) : Prop :=
  ∀ k k', f k' = f k → [k, k', k].Sublist keys → k' = k

/-- If no key comes back, the last pair of a text has the key that came in last. -/
theorem latest_of_settled {keys : List κ} (h : Settled f keys) (name : String) :
    latest f keys name = keys.reverse.find? (f · == name) := by
  induction keys using List.reverseRecOn with
  | nil => rfl
  | append_singleton keys k ih =>
    have ih := ih fun a b hab hsub => h a b hab (hsub.trans (List.sublist_append_left _ _))
    rw [latest] at ih ⊢
    rw [eraseDups_concat, List.reverse_append, List.reverse_singleton, List.singleton_append,
      List.find?_cons]
    split_ifs with hk
    · rw [ih]
      cases hname : f k == name with
      | false => rfl
      | true =>
        -- The key is there already, so the last pair of its text had this key.
        obtain ⟨k', hlast⟩ : ∃ k', keys.reverse.find? (f · == name) = some k' := by
          rw [← Option.isSome_iff_exists, List.find?_isSome]
          exact ⟨k, by simpa using hk, hname⟩
        obtain ⟨hk', after, before, hsplit, hafter⟩ := List.find?_eq_some_iff_append.1 hlast
        have hkeys : keys = before.reverse ++ k' :: after.reverse := by
          rw [← List.reverse_reverse keys, hsplit]
          simp
        rw [hlast, Option.some_inj]
        by_contra hne
        have hbefore : k ∈ before.reverse := by
          rw [hkeys, List.mem_append, List.mem_cons] at hk
          refine hk.resolve_right (not_or.2 ⟨Ne.symm hne, fun hin => ?_⟩)
          simpa [hname] using hafter k (List.mem_reverse.1 hin)
        refine hne (h k k' ((beq_iff_eq.1 hk').trans (beq_iff_eq.1 hname).symm) ?_)
        rw [hkeys, List.append_assoc]
        exact (List.singleton_sublist.2 hbefore).append
          ((List.singleton_sublist.2 (by simp)).cons_cons k')
    · rw [List.reverse_append, List.reverse_singleton, List.singleton_append, List.find?_cons, ih]

/-- Inserting under texts, and inserting under keys first: the texts stand in one order, but a text is
bound by its last pair in the one case and by the last pair of its latest key in the other. -/
theorem ofPairs_spelled (f : κ → String) (pairs : List (κ × ν)) :
    (ofPairs (· == ·) ((ofPairs (· == ·) pairs).map (Prod.map f id))).map Prod.fst =
        (ofPairs (· == ·) (pairs.map (Prod.map f id))).map Prod.fst ∧
      (∀ name, (ofPairs (· == ·) ((ofPairs (· == ·) pairs).map (Prod.map f id))).lookup name =
        (latest f (pairs.map Prod.fst) name).bind fun k => pairs.reverse.lookup k) := by
  have hfst (l : List (κ × ν)) : (l.map (Prod.map f id)).map Prod.fst = (l.map Prod.fst).map f := by
    simp
  constructor
  · rw [keys_ofPairs, keys_ofPairs, hfst, hfst, keys_ofPairs, eraseDups_map_eraseDups]
  · intro name
    have hnodup : ((ofPairs (· == ·) pairs).map Prod.fst).Nodup := by
      rw [keys_ofPairs]
      exact nodup_eraseDups _
    rw [lookup_ofPairs, ← List.map_reverse, lookup_spelled, latest, ← keys_ofPairs, ← List.map_reverse]
    refine (find?_keys_bind fun e he => ?_).symm
    rw [← lookup_ofPairs]
    exact lookup_of_mem hnodup e (List.mem_reverse.1 (List.mem_of_find?_eq_some he))

/-- If no key comes back after another one of its text, it does not matter. -/
theorem ofPairs_of_settled {pairs : List (κ × ν)} (h : Settled f (pairs.map Prod.fst)) :
    ofPairs (· == ·) ((ofPairs (· == ·) pairs).map (Prod.map f id)) =
      ofPairs (· == ·) (pairs.map (Prod.map f id)) := by
  obtain ⟨hkeys, hlookup⟩ := ofPairs_spelled f pairs
  refine eq_of_lookup ?_ hkeys fun name => ?_
  · rw [keys_ofPairs]
    exact nodup_eraseDups _
  · rw [hlookup, latest_of_settled h, lookup_ofPairs, ← List.map_reverse, ← List.map_reverse,
      lookup_spelled]
    -- The last pair of a text is also the last pair of its key.
    refine find?_keys_bind fun e he => ?_
    obtain ⟨hname, before, after, hsplit, hbefore⟩ := List.find?_eq_some_iff_append.1 he
    have hkey : pairs.reverse.find? (fun p => p.1 == e.1) = some e := by
      refine List.find?_eq_some_iff_append.2 ⟨by simp, before, after, hsplit, fun p hp => ?_⟩
      have hp := hbefore p hp
      simp only [Bool.not_eq_true', beq_eq_false_iff_ne] at hp ⊢
      exact fun heq => hp (heq ▸ beq_iff_eq.1 hname)
    have hlast := lookup_spelled id pairs.reverse e.1
    rw [Prod.map_id, List.map_id] at hlast
    rw [hlast]
    exact congrArg (Option.map Prod.snd) hkey

end Assoc

/-! ### Named arguments in a store -/

/-- A name of an argument: a text, or a whole number that is not too long to be written. -/
inductive ArgumentName where
  | text (s : String)
  | number (n : Int) (hn : isSpelled n = true)
  deriving DecidableEq

namespace ArgumentName

def value : ArgumentName → Value
  | .text s => .str s
  | .number n _ => .int n

def spelling : ArgumentName → String
  | .text s => s
  | .number n _ => toString n

theorem text_value (s : Store) (k : ArgumentName) : s.text k.value = .ok k.spelling := by
  cases k with
  | text s => rfl
  | number n hn =>
    have hview : s.view (.int n) = .int n := rfl
    rw [value, Store.text, show s.isPrinted (.int n) = false from rfl, hview]
    simp only [View.plain, plainOf_int, hn, Bool.false_eq_true, if_false, if_true, spelling]

theorem array?_value (s : Store) (k : ArgumentName) : s.array? k.value = none := by
  cases k <;> rfl

theorem valid_value (k : ArgumentName) {s : Store} : s.Valid k.value := by
  cases k <;> simp [Valid, value]

theorem sameKey_value (s : Store) (k k' : ArgumentName) :
    s.sameKey k.value k'.value = (k == k') := by
  rw [Bool.eq_iff_iff]
  cases k <;> cases k' <;>
    simp [sameKey, sameWithin, value, asObject?, Value.samePlain, Value.number?, sameNumber]

end ArgumentName

/-- A value that stands for itself as an argument: there, no array and no expression. -/
def Store.IsDatum (s : Store) (v : Value) : Prop :=
  s.Valid v ∧ s.array? v = none ∧ s.isExpression v = false

/-- The pairs as literals under the texts of their names. -/
def literals (named : List (String × Value)) : List (String × Expr) :=
  named.map (Prod.map id .literal)

variable {s t : Store} {pairs : List (ArgumentName × Value)}

theorem hashItems_pairs (pairs : List (ArgumentName × Value)) (done : List (String × Opcode.Expr)) :
    Opcode.hashItems s.display (pairs.flatMap fun p => [.atom p.1.value, .atom p.2]) done =
      .ok (pairs.foldl (fun done p => set p.1.spelling (.literal p.2) done) done) := by
  induction pairs generalizing done with
  | nil => rfl
  | cons p rest ih =>
    have htext : s.display.rawText (.atom p.1.value) = .ok p.1.spelling := p.1.text_value s
    simp only [List.flatMap_cons, List.cons_append, List.nil_append, Opcode.hashItems, Opcode.param,
      htext, List.foldl_cons]
    exact ih _

theorem foldl_set_pairs {ν : Type} (g : Value → ν) (pairs : List (ArgumentName × Value)) :
    pairs.foldl (fun done p => set p.1.spelling (g p.2) done) [] =
      (ofPairs (· == ·) (pairs.map (Prod.map ArgumentName.spelling id))).map (Prod.map id g) := by
  rw [← ofPairs_map (f := id) (· == ·) (· == ·) (fun _ _ => rfl) g, List.map_map, ofPairs,
    List.foldl_map]
  rfl

theorem hashOf_pairs {array : Value} (hvalues : ∀ p ∈ pairs, s.IsDatum p.2)
    (harray : s.array? array = some (pairs.flatMap fun p => [p.1.value, p.2])) :
    ∃ es t, hashOf array s = .ok es t ∧ HashStandsAt t
      (literals (ofPairs (· == ·) (pairs.map (Prod.map ArgumentName.spelling id)))) es := by
  have hground : s.Grounded array := by
    refine .array harray fun w hw => ?_
    obtain ⟨p, hp, hw⟩ := List.mem_flatMap.1 hw
    simp only [List.mem_cons, List.not_mem_nil, or_false] at hw
    rcases hw with rfl | rfl
    · exact .item p.1.valid_value (p.1.array?_value s)
    · exact .item (hvalues p hp).1 (hvalues p hp).2.1
  have hitems : (pairs.flatMap fun p => [p.1.value, p.2]).map (Raw.ofValue s) =
      pairs.flatMap fun p => [.atom p.1.value, .atom p.2] := by
    rw [List.map_flatMap]
    refine List.flatMap_congr fun p hp => ?_
    simp [ofValue_item (p.1.array?_value s), ofValue_item (hvalues p hp).2.1]
  have hread : hash s.display (Raw.ofValue s array) =
      .ok (pairs.foldl (fun done p => set p.1.spelling (.literal p.2) done) []) := by
    obtain ⟨wrap, hwrap, hraw⟩ := hground.ofValue_array harray
    have heven : ¬ (pairs.flatMap fun p => [Raw.atom p.1.value, .atom p.2]).length % 2 = 1 := by
      simp [List.length_flatMap]
    rw [hraw, hitems]
    rcases hwrap with rfl | rfl
    all_goals
      rw [Opcode.hash, if_neg heven]
      exact hashItems_pairs pairs []
  rw [foldl_set_pairs] at hread
  obtain ⟨es, t, hok, -, hes⟩ := allocateHash_standsAt _ s
  refine ⟨es, t, ?_, hes⟩
  unfold hashOf
  rw [Act.bind_store, hread]
  exact hok

theorem Store.IsDatum.mono {v : Value} (h : s.IsDatum v) (hst : s.Extends t) : t.IsDatum v := by
  refine ⟨h.1.mono hst, (array?_of_extends hst h.1).trans h.2.1, ?_⟩
  rw [isExpression, asObject?_of_extends hst h.1]
  exact h.2.2

/-- One more literal among those that stand in a mapping. -/
theorem hashStandsAt_set {k : String} {v x : Value} (hx : (Expr.literal v).StandsAt s x)
    {named done : List (String × Value)}
    (h : HashStandsAt s (literals named) (done.map fun e => (.str e.1, e.2))) :
    HashStandsAt s (literals (set k v named))
      ((set k x done).map fun e => (.str e.1, e.2)) := by
  induction named generalizing done with
  | nil =>
    cases done with
    | nil => exact ⟨rfl, hx, trivial⟩
    | cons e done => exact h.elim
  | cons p named ih =>
    cases done with
    | nil => exact h.elim
    | cons e done =>
      obtain ⟨hkey, he, hrest⟩ := h
      have hname : e.1 = p.1 := by simpa using hkey
      simp only [Assoc.set, Assoc.insert, hname]
      split_ifs
      · exact ⟨rfl, hx, hrest⟩
      · exact ⟨rfl, he, ih hrest⟩

/-- A mapping is read entry by entry. -/
theorem hashEntries_pairs (hvalues : ∀ p ∈ pairs, s.IsDatum p.2) (named done : List (String × Value))
    (h : HashStandsAt s (literals named) (done.map fun e => (.str e.1, e.2))) :
    ∃ es t, hashEntries (pairs.map (Prod.map ArgumentName.value id)) done s = .ok es t ∧
      HashStandsAt t
        (literals (pairs.foldl (fun done p => set p.1.spelling p.2 done) named))
        (es.map fun e => (.str e.1, e.2)) := by
  induction pairs generalizing s named done with
  | nil => exact ⟨done, s, rfl, h⟩
  | cons p rest ih =>
    rw [List.forall_mem_cons] at hvalues
    have hst := s.extends_push (.expression (.literal p.2))
    have htext : Act.text p.1.value s = .ok p.1.spelling s := by
      unfold Act.text
      rw [Act.bind_store, p.1.text_value]
      rfl
    have hnew : asExpression p.2 s =
        .ok (.object s.next) (s.push (.expression (.literal p.2))) := by
      unfold asExpression
      rw [Act.bind_store, hvalues.1.2.2]
      rfl
    have hx : (Expr.literal p.2).StandsAt (s.push (.expression (.literal p.2)))
        (.object s.next) := ⟨s.next, rfl, s.object?_push_next _⟩
    obtain ⟨es, t, hok, hes⟩ := ih (fun q hq => (hvalues.2 q hq).mono hst) _ _
      (hashStandsAt_set (k := p.1.spelling) hx (hashStandsAt_mono hst _ _ h))
    exact ⟨es, t, (Act.bind_of_ok htext).trans ((Act.bind_of_ok hnew).trans hok), hes⟩

theorem hash_pairs {mapping : Value} (hvalues : ∀ p ∈ pairs, s.IsDatum p.2)
    (hmapping : s.entries? mapping =
      some (ofPairs s.sameKey (pairs.map (Prod.map ArgumentName.value id)))) :
    ∃ es t, hash mapping s = .ok es t ∧ HashStandsAt t (literals (ofPairs (· == ·)
      ((ofPairs (· == ·) pairs).map (Prod.map ArgumentName.spelling id)))) es := by
  have hkept : ∀ p ∈ ofPairs (· == ·) pairs, s.IsDatum p.2 := by
    clear hmapping
    induction pairs using List.reverseRecOn with
    | nil => simp [ofPairs]
    | append_singleton pairs p ih =>
      rw [ofPairs_concat]
      exact snd_of_mem_insert (P := s.IsDatum) (hvalues p (by simp))
        (ih fun q hq => hvalues q (List.mem_append_left _ hq))
  rw [ofPairs_map (· == ·) _ (ArgumentName.sameKey_value s)] at hmapping
  obtain ⟨es, t, hok, hes⟩ := hashEntries_pairs hkept [] [] trivial
  have hfold := foldl_set_pairs id (ofPairs (· == ·) pairs)
  rw [Prod.map_id, List.map_id] at hfold
  simp only [id_eq] at hfold
  rw [hfold] at hes
  refine ⟨_, t, ?_, hes⟩
  obtain ⟨id, rfl, -⟩ := entries?_eq_some hmapping
  unfold Hook.hash
  rw [Act.bind_store, hmapping]
  exact Act.bind_of_ok hok

/-- **Named arguments from pairs.** Read from a flat array, the arguments are the distinct texts of the
names in the order in which they came first, each with the literal of its last pair. Read from the
mapping that the pairs were inserted into, they are the same texts in the same order, each with the
literal of the last pair of the name that came in last. So the two agree if no name comes back after
another one of its text, and exactly if the two pairs of every text have one value. -/
theorem named_arguments_of_pairs {array mapping : Value} (hvalues : ∀ p ∈ pairs, s.IsDatum p.2)
    (harray : s.array? array = some (pairs.flatMap fun p => [p.1.value, p.2]))
    (hmapping : s.entries? mapping =
      some (Assoc.ofPairs s.sameKey (pairs.map (Prod.map ArgumentName.value id)))) :
    ∃ flat mapped : List (String × Value),
      (∃ es t, Opcode.hashOf array s = .ok es t ∧ Opcode.HashStandsAt t (literals flat) es) ∧
      (∃ es t, Hook.hash mapping s = .ok es t ∧ Opcode.HashStandsAt t (literals mapped) es) ∧
      flat.map Prod.fst = (pairs.map fun p => p.1.spelling).eraseDups ∧
      mapped.map Prod.fst = flat.map Prod.fst ∧
      (∀ name, flat.lookup name = (pairs.reverse.find? fun p => p.1.spelling == name).map Prod.snd) ∧
      (∀ name, mapped.lookup name =
        (Assoc.latest ArgumentName.spelling (pairs.map Prod.fst) name).bind fun k => pairs.reverse.lookup k) ∧
      (Assoc.Settled ArgumentName.spelling (pairs.map Prod.fst) → mapped = flat) ∧
      (mapped = flat ↔ ∀ name, mapped.lookup name = flat.lookup name) := by
  obtain ⟨hkeys, hlookup⟩ := ofPairs_spelled ArgumentName.spelling pairs
  refine ⟨_, _, hashOf_pairs hvalues harray, hash_pairs hvalues hmapping, ?_, hkeys, ?_, hlookup,
    ofPairs_of_settled, fun h name => by rw [h], fun h => eq_of_lookup ?_ hkeys h⟩
  · rw [keys_ofPairs, List.map_map]
    rfl
  · intro name
    rw [lookup_ofPairs, ← List.map_reverse, lookup_spelled]
  · rw [keys_ofPairs]
    exact nodup_eraseDups _

/-- A store with the array of pairs and the mapping that they were inserted into. -/
def pairStore (pairs : List (ArgumentName × Value)) : Store where
  objects := #[
    .list (pairs.flatMap fun p => [p.1.value, p.2]),
    .map ((ofPairs (· == ·) pairs).map (Prod.map ArgumentName.value id))]

theorem pairStore_mapping (pairs : List (ArgumentName × Value)) :
    (pairStore pairs).entries? (.object ⟨1⟩) = some (ofPairs (pairStore pairs).sameKey
      (pairs.map (Prod.map ArgumentName.value id))) := by
  rw [ofPairs_map (· == ·) _ (ArgumentName.sameKey_value _)]
  rfl

theorem isDatum_str (s : Store) (text : String) : s.IsDatum (.str text) :=
  ⟨by simp [Valid], rfl, rfl⟩

/-- A number and a text that is spelled alike. -/
def alikePairs : List (ArgumentName × Value) :=
  [(.number 1 (by decide +kernel), .str "a"), (.text "x", .str "b"), (.text "1", .str "c")]

/-- The text takes the place of the number, in the array and in the mapping. -/
theorem named_arguments_of_pairs_alikePairs : ∃ named : List (String × Value),
    named.map Prod.fst = ["1", "x"] ∧ named.lookup "1" = some (.str "c") ∧
      (∃ es t, Opcode.hashOf (.object ⟨0⟩) (pairStore alikePairs) = .ok es t ∧
        Opcode.HashStandsAt t (literals named) es) ∧
      ∃ es t, Hook.hash (.object ⟨1⟩) (pairStore alikePairs) = .ok es t ∧
        Opcode.HashStandsAt t (literals named) es := by
  have hsettled : Settled ArgumentName.spelling (alikePairs.map Prod.fst) := by
    intro k k' _ hsub
    have hkeys := hsub.eq_of_length rfl
    simp only [alikePairs, List.map_cons, List.map_nil, List.cons.injEq] at hkeys
    rw [hkeys.1] at hkeys
    cases hkeys.2.2.1
  have hvalues : ∀ p ∈ alikePairs, (pairStore alikePairs).IsDatum p.2 := by
    simp [alikePairs, isDatum_str]
  have harray : (pairStore alikePairs).array? (.object ⟨0⟩) =
      some (alikePairs.flatMap fun p => [p.1.value, p.2]) := rfl
  obtain ⟨flat, mapped, hflat, hmapped, hkeys, -, hlookup, -, heq, -⟩ :=
    named_arguments_of_pairs hvalues harray (pairStore_mapping alikePairs)
  rw [heq hsettled] at hmapped
  exact ⟨flat, hkeys.trans (by decide), (hlookup "1").trans (by decide), hflat, hmapped⟩

/-- A number, a text that is spelled alike, and the number again. -/
def returningPairs : List (ArgumentName × Value) :=
  [(.number 1 (by decide +kernel), .str "a"), (.text "1", .str "b"),
    (.number 1 (by decide +kernel), .str "c")]

/-- If a name comes back after another one of its text, the array and the mapping differ. -/
theorem named_arguments_differ :
    (∃ es t, Opcode.hashOf (.object ⟨0⟩) (pairStore returningPairs) = .ok es t ∧
      Opcode.HashStandsAt t (literals [("1", .str "c")]) es) ∧
    ∃ es t, Hook.hash (.object ⟨1⟩) (pairStore returningPairs) = .ok es t ∧
      Opcode.HashStandsAt t (literals [("1", .str "b")]) es := by
  have hvalues : ∀ p ∈ returningPairs, (pairStore returningPairs).IsDatum p.2 := by
    simp [returningPairs, isDatum_str]
  exact ⟨hashOf_pairs hvalues rfl, hash_pairs hvalues (pairStore_mapping returningPairs)⟩

end TemplateRecovery
