import Mathlib.Data.List.TakeWhile
import Mathlib.Data.Nat.Digits.Defs
import TemplateRecovery.Proofs.Taxonomy

/-!
# Detecting the format of an artifact

The marker of a revision may occur several times, overlap the start of another one, and be followed by
anything. What counts is the first marker that a digit follows, and all the digits there.

* `Revision.Marked` says that a marker with a digit after it stands at a place of a text, and
  `Revision.Names` that a run of digits is the one that counts.
* `Revision.majorDigits?_eq_some_iff` and `Revision.majorDigits?_eq_none_iff` say that the search finds
  exactly this run.
* `Revision.chosen?` is the revision of an artifact that is taken, as a value.
* `Revision.detection_exact` says what is detected, for every revision and every artifact.
-/

namespace TemplateRecovery

open Opcode Act

variable {cs ds : List Char} {r text : String} {fault : Fault}

namespace Text

theorem digitRun_eq_iff :
    digitRun cs = ds ↔ ∃ t, cs = ds ++ t ∧ (∀ c ∈ ds, isDigit c) ∧ ∀ c ∈ t.head?, ¬ isDigit c := by
  constructor
  · rintro rfl
    refine ⟨cs.dropWhile isDigit, (List.takeWhile_append_dropWhile).symm, fun c hc => ?_, fun c hc => ?_⟩
    · exact List.mem_takeWhile_imp hc
    · have h := List.head?_dropWhile_not isDigit cs
      rw [Option.mem_def.1 hc] at h
      simpa using h
  · rintro ⟨t, rfl, hds, ht⟩
    have htail : t.takeWhile isDigit = [] := by
      cases t with
      | nil => rfl
      | cons c t => exact List.takeWhile_cons_of_neg (ht c rfl)
    rw [digitRun, List.takeWhile_append_of_pos hds, htail, List.append_nil]

/-- Reading digits from the left gives their value in base ten. -/
theorem readNat_eq_ofDigits (ds : List Char) :
    readNat ds = Nat.ofDigits 10 (ds.reverse.map fun c => (digitValue? c).getD 0) := by
  induction ds using List.reverseRecOn with
  | nil => rfl
  | append_singleton ds c ih =>
    rw [readNat, List.foldl_append, ← readNat, ih, List.reverse_append, List.reverse_singleton,
      List.singleton_append, List.map_cons, Nat.ofDigits_cons, List.foldl_cons, List.foldl_nil]
    exact Nat.add_comm _ _

end Text

namespace Revision

open Text

/-! ### The search -/

/-- A marker that is directly followed by a digit stands after the given characters. -/
def Marked (cs p : List Char) : Prop := ∃ c t, cs = p ++ marker ++ c :: t ∧ isDigit c

/-- **The digits that name a version**: a whole run of them directly after a marker, where no marker
that stands further in front has a digit after it. -/
def Names (cs ds : List Char) : Prop :=
  ∃ p t, cs = p ++ marker ++ ds ++ t ∧ ds ≠ [] ∧ (∀ c ∈ ds, isDigit c) ∧
    (∀ c ∈ t.head?, ¬ isDigit c) ∧ ∀ q, Marked cs q → ¬ q.length < p.length

theorem digitsHere?_eq_some_iff :
    digitsHere? cs = some ds ↔ ∃ t, cs = marker ++ ds ++ t ∧ ds ≠ [] ∧ (∀ c ∈ ds, isDigit c) ∧
      ∀ c ∈ t.head?, ¬ isDigit c := by
  have hstart : digitsHere? cs = some ds ↔
      ∃ rest, cs = marker ++ rest ∧ digitRun rest = ds ∧ ds ≠ [] := by
    unfold digitsHere? afterMarker?
    by_cases hpre : marker.isPrefixOf cs
    · obtain ⟨rest, rfl⟩ := List.isPrefixOf_iff_prefix.1 hpre
      rw [if_pos hpre, List.drop_left, Option.bind_eq_bind, Option.bind_some]
      constructor
      · intro h
        by_cases hempty : (digitRun rest).isEmpty
        · rw [if_pos hempty] at h
          cases h
        · rw [if_neg hempty] at h
          cases h
          exact ⟨rest, rfl, rfl, by simpa using hempty⟩
      · rintro ⟨rest', heq, rfl, hne⟩
        rw [List.append_cancel_left heq, if_neg (by simpa using hne)]
    · rw [if_neg hpre]
      refine iff_of_false (by simp) ?_
      rintro ⟨rest, rfl, -⟩
      exact hpre (List.isPrefixOf_iff_prefix.2 ⟨rest, rfl⟩)
  rw [hstart]
  constructor
  · rintro ⟨rest, rfl, hrun, hne⟩
    obtain ⟨t, rfl, hds, ht⟩ := digitRun_eq_iff.1 hrun
    exact ⟨t, by rw [List.append_assoc], hne, hds, ht⟩
  · rintro ⟨t, rfl, hne, hds, ht⟩
    exact ⟨ds ++ t, by rw [List.append_assoc], digitRun_eq_iff.2 ⟨t, rfl, hds, ht⟩, hne⟩

theorem digitsHere?_isSome_iff : (digitsHere? cs).isSome ↔ Marked cs [] := by
  rw [Option.isSome_iff_exists]
  constructor
  · rintro ⟨ds, h⟩
    obtain ⟨t, rfl, hne, hds, -⟩ := digitsHere?_eq_some_iff.1 h
    obtain ⟨c, ds, rfl⟩ := List.exists_cons_of_ne_nil hne
    exact ⟨c, ds ++ t, by simp, hds c List.mem_cons_self⟩
  · rintro ⟨c, t, rfl, hc⟩
    obtain ⟨rest, hrest, hds, ht⟩ := digitRun_eq_iff.1 (rfl : digitRun (c :: t) = _)
    refine ⟨digitRun (c :: t), digitsHere?_eq_some_iff.2 ⟨rest, ?_, ?_, hds, ht⟩⟩
    · rw [List.append_assoc marker, ← hrest, List.nil_append]
    · rw [digitRun, List.takeWhile_cons_of_pos hc]
      exact List.cons_ne_nil _ _

/-- A place further back is a place of the rest. -/
theorem marked_cons_iff {x y : Char} {p : List Char} :
    Marked (x :: cs) (y :: p) ↔ y = x ∧ Marked cs p := by
  constructor
  · rintro ⟨c, t, heq, hc⟩
    rw [List.cons_append, List.cons_append, List.cons_eq_cons] at heq
    exact ⟨heq.1.symm, c, t, heq.2, hc⟩
  · rintro ⟨rfl, c, t, rfl, hc⟩
    exact ⟨c, t, rfl, hc⟩

/-- **The search finds the digits that count.** -/
theorem majorDigits?_eq_some_iff : majorDigits? cs = some ds ↔ Names cs ds := by
  induction cs with
  | nil =>
    refine iff_of_false (by simp [majorDigits?]) ?_
    rintro ⟨p, t, heq, hne, -⟩
    simp only [List.nil_eq, List.append_eq_nil_iff] at heq
    exact hne heq.1.2
  | cons x cs ih =>
    rw [majorDigits?]
    by_cases hhere : Marked (x :: cs) []
    · -- The marker stands at the front, and nothing is in front of it.
      obtain ⟨found, hfound⟩ := Option.isSome_iff_exists.1 (digitsHere?_isSome_iff.2 hhere)
      rw [hfound]
      constructor
      · intro h
        cases h
        obtain ⟨t, heq, hne, hds, ht⟩ := digitsHere?_eq_some_iff.1 hfound
        exact ⟨[], t, heq, hne, hds, ht, fun q _ => Nat.not_lt_zero _⟩
      · rintro ⟨p, t, heq, hne, hds, ht, hfirst⟩
        obtain rfl : p = [] := by
          have := hfirst [] hhere
          rw [List.length_nil, Nat.not_lt, Nat.le_zero] at this
          exact List.length_eq_zero_iff.1 this
        exact hfound.symm.trans (digitsHere?_eq_some_iff.2 ⟨t, heq, hne, hds, ht⟩)
    · have hnone : digitsHere? (x :: cs) = none :=
        Option.not_isSome_iff_eq_none.1 fun h => hhere (digitsHere?_isSome_iff.1 h)
      rw [hnone]
      refine ih.trans ⟨?_, ?_⟩
      · rintro ⟨p, t, rfl, hne, hds, ht, hfirst⟩
        refine ⟨x :: p, t, rfl, hne, hds, ht, fun q hq => ?_⟩
        cases q with
        | nil => exact absurd hq hhere
        | cons y q =>
          rw [List.length_cons, List.length_cons, Nat.succ_lt_succ_iff]
          exact hfirst q (marked_cons_iff.1 hq).2
      · rintro ⟨p, t, heq, hne, hds, ht, hfirst⟩
        cases p with
        | nil =>
          obtain ⟨c, ds, rfl⟩ := List.exists_cons_of_ne_nil hne
          exact absurd ⟨c, ds ++ t, by simpa using heq, hds c List.mem_cons_self⟩ hhere
        | cons y p =>
          simp only [List.cons_append, List.cons_eq_cons] at heq
          refine ⟨p, t, heq.2, hne, hds, ht, fun q hq hlt => ?_⟩
          exact hfirst (x :: q) (marked_cons_iff.2 ⟨rfl, hq⟩) (Nat.succ_lt_succ hlt)

/-- **The search fails if no marker has a digit after it.** -/
theorem majorDigits?_eq_none_iff : majorDigits? cs = none ↔ ∀ p, ¬ Marked cs p := by
  induction cs with
  | nil =>
    refine iff_of_true rfl ?_
    rintro p ⟨c, t, heq, -⟩
    simp at heq
  | cons x cs ih =>
    rw [majorDigits?]
    by_cases hhere : Marked (x :: cs) []
    · obtain ⟨found, hfound⟩ := Option.isSome_iff_exists.1 (digitsHere?_isSome_iff.2 hhere)
      rw [hfound]
      exact iff_of_false (by simp) fun h => h [] hhere
    · have hnone : digitsHere? (x :: cs) = none :=
        Option.not_isSome_iff_eq_none.1 fun h => hhere (digitsHere?_isSome_iff.1 h)
      rw [hnone]
      refine ih.trans ⟨fun h p hp => ?_, fun h p hp => h (x :: p) (marked_cons_iff.2 ⟨rfl, hp⟩)⟩
      cases p with
      | nil => exact hhere hp
      | cons y p => exact h p (marked_cons_iff.1 hp).2

/-- The value of a run of digits in base ten. -/
def valueOf (ds : List Char) : Nat :=
  Nat.ofDigits 10 (ds.reverse.map fun c => (digitValue? c).getD 0)

theorem major?_of_names (h : Names r.toList ds) :
    major? r = if digitLimit < ds.length then .error (.tooManyDigits ds.length)
      else .ok (some (valueOf ds)) := by
  rw [major?, majorDigits?_eq_some_iff.2 h, valueOf, ← readNat_eq_ofDigits]

theorem major?_of_unmarked (h : ∀ p, ¬ Marked r.toList p) : major? r = .ok none := by
  rw [major?, majorDigits?_eq_none_iff.2 h]

/-- A text names a version, or it has no marker with a digit after it. -/
theorem names_or_unmarked (cs : List Char) : (∃ ds, Names cs ds) ∨ ∀ p, ¬ Marked cs p := by
  rcases hfound : majorDigits? cs with _ | ds
  · exact .inr (majorDigits?_eq_none_iff.1 hfound)
  · exact .inl ⟨ds, majorDigits?_eq_some_iff.1 hfound⟩

theorem major?_eq_some_iff {n : Nat} : major? r = .ok (some n) ↔
      ∃ ds, Names r.toList ds ∧ ds.length ≤ digitLimit ∧ valueOf ds = n := by
  constructor
  · intro h
    rcases names_or_unmarked r.toList with ⟨ds, hds⟩ | hnone
    · rw [major?_of_names hds] at h
      split at h
      · cases h
      · rename_i hlength
        cases h
        exact ⟨ds, hds, Nat.not_lt.1 hlength, rfl⟩
    · rw [major?_of_unmarked hnone] at h
      cases h
  · rintro ⟨ds, hds, hlength, rfl⟩
    rw [major?_of_names hds, if_neg (Nat.not_lt.2 hlength)]

theorem major?_eq_none_iff : major? r = .ok none ↔ ∀ p, ¬ Marked r.toList p := by
  refine ⟨fun h => ?_, major?_of_unmarked⟩
  refine (names_or_unmarked r.toList).resolve_left ?_
  rintro ⟨ds, hds⟩
  rw [major?_of_names hds] at h
  split at h <;> cases h

theorem major?_eq_error_iff : major? r = .error fault ↔
      ∃ ds, Names r.toList ds ∧ digitLimit < ds.length ∧ fault = .tooManyDigits ds.length := by
  constructor
  · intro h
    rcases names_or_unmarked r.toList with ⟨ds, hds⟩ | hnone
    · rw [major?_of_names hds] at h
      split at h
      · rename_i hlength
        cases h
        exact ⟨ds, hds, hlength, rfl⟩
      · cases h
    · rw [major?_of_unmarked hnone] at h
      cases h
  · rintro ⟨ds, hds, hlength, rfl⟩
    rw [major?_of_names hds, if_pos hlength]

/-! ### Artifacts -/

/-- **The revision of an artifact that is taken**: its own if that counts as present, else the one of
its meta data if that does. -/
def chosen? (s : Store) (artifact : Value) : Option Value :=
  [memberOf s "revision" artifact,
    memberOf s "revision" (memberOf s "meta" artifact)].find? s.truthy

theorem find?_eq_chosen (artifact : Value) (s : Store) : find? artifact s = .ok (chosen? s artifact) s := by
  have hmember (v : Value) : Artifact.member "revision" v s = .ok (memberOf s "revision" v) s :=
    member_apply (by decide) v s
  have hmeta : Artifact.member "meta" artifact s = .ok (memberOf s "meta" artifact) s :=
    member_apply (by decide) artifact s
  unfold find? chosen?
  rw [bind_of_ok (hmember artifact), bind_store]
  by_cases hown : s.truthy (memberOf s "revision" artifact)
  · rw [if_pos hown, List.find?_cons_of_pos hown]
    rfl
  · rw [if_neg hown, List.find?_cons_of_neg hown, bind_of_ok hmeta, bind_of_ok (hmember _),
      bind_store]
    by_cases hinner : s.truthy (memberOf s "revision" (memberOf s "meta" artifact))
    · rw [if_pos hinner, List.find?_cons_of_pos hinner]
      rfl
    · rw [if_neg hinner, List.find?_cons_of_neg hinner]
      rfl

/-- What is said of an artifact whose revision has this text. -/
def verdict (text : String) : Except Fault (String × Format) :=
  if text = "" then .error (.artifact .noRevision) else (formatOf text).map fun f => (text, f)

/-- Detection reads the revision that is taken and changes nothing. -/
theorem detect_apply (artifact : Value) (s : Store) :
    detect artifact s = lift (match chosen? s artifact with
      | none => .error (.artifact .noRevision)
      | some v => s.text v >>= verdict) s := by
  have hfind := find?_eq_chosen artifact s
  unfold detect text?
  rw [bind_assoc, bind_of_ok hfind]
  cases chosen? s artifact with
  | none => rfl
  | some v =>
    have htext : text v s = lift (s.text v) s := rfl
    simp only [bind_assoc, pure_bind]
    cases hs : s.text v with
    | error fault =>
      rw [hs] at htext
      exact bind_of_error htext
    | ok text =>
      rw [hs] at htext
      rw [bind_of_ok htext]
      change _ = lift (verdict text) s
      unfold verdict
      split_ifs with hempty
      · rfl
      · cases formatOf text <;> rfl

/-- The faults that say nothing about a revision. -/
def SparesRevision (fault : Fault) : Prop :=
  fault ≠ .artifact .noRevision ∧ ∀ r, fault ≠ .unsupportedRevision r

instance : Refuses SparesRevision where
  wrongType := by simp [SparesRevision]
  overflow := by simp [SparesRevision]
  longNumber := by simp [SparesRevision, Fault.longNumber]
  noAttribute := by simp [SparesRevision]
  shape := by simp [SparesRevision]

/-- Writing out a revision never fails as detection does. -/
theorem text_failsOnly (s : Store) (v : Value) : FailsOnly SparesRevision (s.text v) := by
  unfold Store.text
  split
  all_goals exact View.plain_failsOnly (by simp [SparesRevision]) _

theorem formatOf_of_error (h : major? r = .error fault) : formatOf r = .error fault := by
  rw [formatOf, h]
  rfl

theorem formatOf_of_ok {m : Option Nat} (h : major? r = .ok m) :
    formatOf r = match m.bind Format.ofMajor? with
      | some format => .ok format
      | none => .error (.unsupportedRevision r) := by
  rw [formatOf, h]
  rfl

theorem major?_empty : major? "" = .ok none := by
  refine major?_of_unmarked ?_
  rintro p ⟨c, t, heq, -⟩
  simp at heq

def Format.major : Format → Nat
  | .hooks => 1
  | .opcodes => 2

theorem Format.ofMajor?_eq_some_iff {n : Nat} {f : Format} : ofMajor? n = some f ↔ n = f.major := by
  unfold ofMajor?
  split <;> cases f <;> simp_all [Format.major]

theorem verdict_eq_ok_iff {f : Format} :
    verdict text = .ok (r, f) ↔ text = r ∧ major? r = .ok (some f.major) := by
  unfold verdict
  by_cases hempty : text = ""
  · rw [if_pos hempty]
    refine iff_of_false (by simp) ?_
    rintro ⟨rfl, h⟩
    rw [hempty, major?_empty] at h
    cases h
  · rw [if_neg hempty]
    cases hmajor : major? text with
    | error fault =>
      rw [formatOf_of_error hmajor]
      refine iff_of_false (by simp [Except.map]) ?_
      rintro ⟨rfl, h⟩
      rw [hmajor] at h
      cases h
    | ok m =>
      rw [formatOf_of_ok hmajor]
      constructor
      · intro h
        cases hformat : m.bind Format.ofMajor? with
        | none =>
          rw [hformat] at h
          cases h
        | some g =>
          rw [hformat] at h
          cases h
          obtain ⟨n, rfl, hn⟩ := Option.bind_eq_some_iff.1 hformat
          rw [hmajor, Format.ofMajor?_eq_some_iff.1 hn]
          exact ⟨rfl, rfl⟩
      · rintro ⟨rfl, h⟩
        rw [hmajor] at h
        cases h
        rw [Option.bind_some, Format.ofMajor?_eq_some_iff.2 rfl]
        rfl

/-- Any other version, and a text that names none, is not supported. -/
theorem verdict_eq_unsupported_iff : verdict text = .error (.unsupportedRevision r) ↔
      text = r ∧ r ≠ "" ∧ ∃ m, major? r = .ok m ∧ ∀ f : Format, m ≠ some f.major := by
  unfold verdict
  by_cases hempty : text = ""
  · rw [if_pos hempty]
    refine iff_of_false (by simp) ?_
    rintro ⟨rfl, h, -⟩
    exact h hempty
  · rw [if_neg hempty]
    cases hmajor : major? text with
    | error fault =>
      rw [formatOf_of_error hmajor]
      obtain ⟨ds, -, -, rfl⟩ := major?_eq_error_iff.1 hmajor
      refine iff_of_false (by simp [Except.map]) ?_
      rintro ⟨rfl, -, m, h, -⟩
      rw [hmajor] at h
      cases h
    | ok m =>
      rw [formatOf_of_ok hmajor]
      constructor
      · intro h
        cases hformat : m.bind Format.ofMajor? with
        | none =>
          rw [hformat] at h
          cases h
          refine ⟨rfl, hempty, m, hmajor, fun f hf => ?_⟩
          rw [hf, Option.bind_some, Format.ofMajor?_eq_some_iff.2 rfl] at hformat
          cases hformat
        | some g =>
          rw [hformat] at h
          cases h
      · rintro ⟨rfl, -, m', h, hother⟩
        rw [hmajor] at h
        cases h
        have hformat : m.bind Format.ofMajor? = none := by
          refine Option.eq_none_iff_forall_ne_some.2 fun f hf => ?_
          obtain ⟨n, rfl, hn⟩ := Option.bind_eq_some_iff.1 hf
          exact hother f (congrArg some (Format.ofMajor?_eq_some_iff.1 hn))
        rw [hformat]
        rfl

/-- Only an empty text is taken for no revision. -/
theorem verdict_eq_noRevision_iff : verdict text = .error (.artifact .noRevision) ↔ text = "" := by
  unfold verdict
  refine ⟨fun h => by_contra fun hempty => ?_, fun h => if_pos h⟩
  rw [if_neg hempty] at h
  cases hmajor : major? text with
  | error fault =>
    rw [formatOf_of_error hmajor] at h
    obtain ⟨ds, -, -, rfl⟩ := major?_eq_error_iff.1 hmajor
    cases h
  | ok m =>
    rw [formatOf_of_ok hmajor] at h
    cases hformat : m.bind Format.ofMajor? <;> rw [hformat] at h <;> cases h

theorem verdict_of_error (h : major? text = .error fault) : verdict text = .error fault := by
  unfold verdict
  rw [if_neg, formatOf_of_error h]
  · rfl
  · rintro rfl
    rw [major?_empty] at h
    cases h

/-- The revision that is taken has this text. -/
def HasText (s : Store) (artifact : Value) (r : String) : Prop :=
  ∃ v ∈ chosen? s artifact, s.text v = .ok r

/-- **Detection is exact.** The major version of a text is the value of the digits after the first
marker that has a digit after it. Of an artifact the revision that is taken is written out; there is
none if no revision counts as present or its text is empty. Version one stands for hooks and version
two for opcodes, and every other text is refused as it is. -/
theorem detection_exact :
    (∀ (r : String) (n : Nat), major? r = .ok (some n) ↔
      ∃ ds, Names r.toList ds ∧ ds.length ≤ digitLimit ∧ valueOf ds = n) ∧
    (∀ r : String, major? r = .ok none ↔ ∀ p, ¬ Marked r.toList p) ∧
    (∀ (r : String) (fault : Fault), major? r = .error fault ↔
      ∃ ds, Names r.toList ds ∧ digitLimit < ds.length ∧ fault = .tooManyDigits ds.length) ∧
    ∀ (s : Store) (artifact : Value), ∃ found : Except Fault (String × Format),
      detect artifact s = Act.lift found s ∧
      (found = .error (.artifact .noRevision) ↔
        chosen? s artifact = none ∨ HasText s artifact "") ∧
      (∀ r, found = .ok (r, .hooks) ↔ HasText s artifact r ∧ major? r = .ok (some 1)) ∧
      (∀ r, found = .ok (r, .opcodes) ↔ HasText s artifact r ∧ major? r = .ok (some 2)) ∧
      (∀ r, found = .error (.unsupportedRevision r) ↔ HasText s artifact r ∧ r ≠ "" ∧
        ∃ m, major? r = .ok m ∧ m ≠ some 1 ∧ m ≠ some 2) ∧
      (∀ r fault, HasText s artifact r → major? r = .error fault → found = .error fault) ∧
      ∀ v ∈ chosen? s artifact, ∀ fault, s.text v = .error fault → found = .error fault := by
  refine ⟨fun r n => major?_eq_some_iff, fun r => major?_eq_none_iff,
    fun r fault => major?_eq_error_iff, fun s artifact => ⟨_, detect_apply artifact s, ?_⟩⟩
  have hothers {m : Option Nat} : (∀ f : Format, m ≠ some f.major) ↔ m ≠ some 1 ∧ m ≠ some 2 :=
    ⟨fun h => ⟨h .hooks, h .opcodes⟩, fun h f => by cases f; exacts [h.1, h.2]⟩
  cases hchosen : chosen? s artifact with
  | none => simp [HasText, hchosen]
  | some v =>
    have htext {r : String} : HasText s artifact r ↔ s.text v = .ok r := by
      simp [HasText, hchosen]
    simp only [htext]
    cases hs : s.text v with
    | error fault =>
      obtain ⟨hmissing, hunsupported⟩ := text_failsOnly s v fault hs
      refine ⟨?_, ?_, ?_, ?_, ?_, ?_⟩
      all_goals simp_all [bind, Except.bind]
    | ok text =>
      change (verdict text = _ ↔ _) ∧ (∀ r, verdict text = _ ↔ _) ∧ (∀ r, verdict text = _ ↔ _) ∧
        (∀ r, verdict text = _ ↔ _) ∧ (∀ r fault, _ → _ → verdict text = _) ∧ _
      simp only [Except.ok.injEq, ← hothers]
      refine ⟨verdict_eq_noRevision_iff.trans (by simp), fun r => verdict_eq_ok_iff,
        fun r => verdict_eq_ok_iff, fun r => verdict_eq_unsupported_iff, ?_, ?_⟩
      · rintro r fault rfl h
        exact verdict_of_error h
      · intro v' hv' fault h
        cases hv'
        rw [hs] at h
        cases h

/-! A revision that counts as present and has no text: a fragment without children. -/

/-- A store with an empty fragment, and an artifact whose revision it is. -/
def emptyTextStore : Store :=
  { objects := #[.node ⟨.fragment, .own []⟩ [], .map [(.str "revision", .object ⟨0⟩)]] }

/-- A revision can count as present and still be taken for none. -/
theorem present_revision_missed :
    ¬ (detect (.object ⟨1⟩) emptyTextStore = .error (.artifact .noRevision) emptyTextStore ↔
      chosen? emptyTextStore (.object ⟨1⟩) = none) := by
  have hchosen : chosen? emptyTextStore (.object ⟨1⟩) = some (.object ⟨0⟩) := by
    decide +kernel
  have htext : emptyTextStore.text (.object ⟨0⟩) = .ok "" := by
    rfl
  rw [detect_apply, hchosen]
  simp only [htext]
  intro h
  cases h.1 rfl

end Revision

end TemplateRecovery
