import Mathlib.Tactic
import TemplateRecovery.Render.Basic

/-!
# String arguments of a printed call

A string argument is printed between single quotes as it is, and arguments are told apart by blanks. So
a call keeps its strings joined by a closing quote, a blank and an opening quote, and nothing more: the
strings can be read from it as long as none of them looks like the end of one argument and the start of
the next.

* `stringCall_eq_iff` says which strings have one call.
* `SelfContained` are the strings that do not look like two arguments.
* `string_arguments_of_call` is the result: self-contained strings can be read from a call, and no
  other string can be added to them.
-/

namespace TemplateRecovery

/-- The text of a helper with string literals as its parameters and without named arguments. -/
def stringCall (name : String) (xs : List String) : Except Fault String :=
  View.callText (.str name) (.list (xs.map fun x => .literal (.str x))) (.map [])

/-- The end of a string argument and the start of the next one. -/
def boundary : List Char := ['\'', ' ', '\'']

/-- A string that does not look like two arguments, nor does it with its closing quote. -/
def SelfContained (x : String) : Prop := ¬ boundary <:+: x.toList ++ ['\'']

instance (x : String) : Decidable (SelfContained x) := inferInstanceAs (Decidable (¬ _))

/-! ### The text of a call -/

theorem argumentItems_literals (xs : List String) :
    argumentItems (xs.map fun x => .literal (.str x)) = .ok (xs.map fun x => "'" ++ x ++ "'") := by
  induction xs with
  | nil => rfl
  | cons x rest ih =>
    rw [List.map_cons, argumentItems, ih]
    rfl

/-- The quotes between two strings belong to the boundary. -/
theorem toList_join_quoted (x : String) (rest : List String) :
    (Text.join " " ((x :: rest).map fun x => "'" ++ x ++ "'")).toList =
      '\'' :: (boundary.intercalate ((x :: rest).map String.toList) ++ ['\'']) := by
  induction rest generalizing x with
  | nil => simp
  | cons y more ih =>
    have hjoin := ih y
    simp only [List.map_cons] at hjoin
    simp only [List.map_cons, Text.join_cons_cons, String.toList_append, hjoin,
      List.intercalate_cons_cons]
    simp [boundary]

theorem stringCall_eq (name : String) (xs : List String) : stringCall name xs =
    .ok (name ++ Text.group (Text.join " " (xs.map fun x => "'" ++ x ++ "'")) ++ Text.group "") := by
  rw [stringCall, View.callText, argumentsText, argumentItems_literals]
  rfl

theorem toList_stringCall_group (xs : List String) :
    (Text.group (Text.join " " (xs.map fun x => "'" ++ x ++ "'"))).toList =
      if xs = [] then [] else ' ' :: '\'' :: (boundary.intercalate (xs.map String.toList) ++ ['\'']) := by
  cases xs with
  | nil => rfl
  | cons x rest =>
    have hjoin := toList_join_quoted x rest
    have hne : Text.join " " ((x :: rest).map fun x => "'" ++ x ++ "'") ≠ "" := by
      intro h
      rw [h] at hjoin
      cases hjoin
    rw [Text.group, if_neg hne, String.toList_append, hjoin, if_neg (List.cons_ne_nil x rest)]
    rfl

/-- **A call keeps the joined strings**, and whether there are any. -/
theorem stringCall_eq_iff (name : String) (xs ys : List String) :
    stringCall name xs = stringCall name ys ↔ (xs = [] ↔ ys = []) ∧
      boundary.intercalate (xs.map String.toList) = boundary.intercalate (ys.map String.toList) := by
  rw [stringCall_eq, stringCall_eq, Except.ok.injEq, String.append_left_inj, String.append_right_inj,
    ← String.toList_inj, toList_stringCall_group, toList_stringCall_group]
  by_cases hx : xs = [] <;> by_cases hy : ys = [] <;> simp [hx, hy]

/-! ### Strings that can be read -/

/-- The first boundary ends a string that is self-contained. -/
theorem append_boundary_inj {a b x y : List Char} (ha : ¬ boundary <:+: a ++ ['\''])
    (hb : ¬ boundary <:+: b ++ ['\'']) (h : a ++ boundary ++ x = b ++ boundary ++ y) :
    a = b ∧ x = y := by
  -- Where one string goes on, the boundary behind the other one is inside of it.
  have hlonger : ∀ {a c x y : List Char}, ¬ boundary <:+: a ++ c ++ ['\''] →
      boundary ++ x = c ++ (boundary ++ y) → c = [] := by
    intro a c x y hc h
    by_contra hne
    have hin : boundary <+: c ++ ['\''] := by
      rcases c with _ | ⟨c₁, _ | ⟨c₂, _ | ⟨c₃, more⟩⟩⟩
      · exact absurd rfl hne
      · simp [boundary] at h
      · simp only [boundary, List.cons_append, List.nil_append, List.cons.injEq] at h
        obtain ⟨rfl, rfl, -⟩ := h
        exact ⟨[], rfl⟩
      · simp only [boundary, List.cons_append, List.nil_append, List.cons.injEq] at h
        obtain ⟨rfl, rfl, rfl, -⟩ := h
        exact ⟨more ++ ['\''], rfl⟩
    refine hc ?_
    rw [List.append_assoc]
    exact hin.isInfix.trans (List.suffix_append a _).isInfix
  rw [List.append_assoc, List.append_assoc] at h
  rcases List.append_eq_append_iff.1 h with ⟨c, rfl, hc⟩ | ⟨c, rfl, hc⟩
  · obtain rfl := hlonger hb hc
    exact ⟨by simp, by simpa using hc⟩
  · obtain rfl := hlonger ha hc
    exact ⟨by simp, by simpa using hc.symm⟩

theorem not_boundary_inside {a b x : List Char} (hb : ¬ boundary <:+: b ++ ['\'']) :
    b ≠ a ++ boundary ++ x := by
  rintro rfl
  exact hb ⟨a, x ++ ['\''], by simp⟩

/-- Self-contained strings can be read from what they are joined to. -/
theorem intercalate_boundary_inj {xs ys : List (List Char)} (hx : xs ≠ []) (hy : ys ≠ [])
    (hxs : ∀ x ∈ xs, ¬ boundary <:+: x ++ ['\'']) (hys : ∀ y ∈ ys, ¬ boundary <:+: y ++ ['\''])
    (h : boundary.intercalate xs = boundary.intercalate ys) : xs = ys := by
  induction xs generalizing ys with
  | nil => exact absurd rfl hx
  | cons x rest ih =>
    cases ys with
    | nil => exact absurd rfl hy
    | cons y more =>
      rw [List.forall_mem_cons] at hxs hys
      cases rest with
      | nil =>
        cases more with
        | nil => simpa using h
        | cons z more =>
          rw [List.intercalate_singleton, List.intercalate_cons_cons] at h
          exact absurd h (not_boundary_inside hxs.1)
      | cons w rest =>
        cases more with
        | nil =>
          rw [List.intercalate_singleton, List.intercalate_cons_cons] at h
          exact absurd h.symm (not_boundary_inside hys.1)
        | cons z more =>
          rw [List.intercalate_cons_cons, List.intercalate_cons_cons] at h
          obtain ⟨rfl, hrest⟩ := append_boundary_inj hxs.1 hys.1 h
          rw [ih (by simp) (by simp) hxs.2 hys.2 hrest]

/-! ### Strings that cannot be read -/

theorem exists_first_boundary {l : List Char} (h : boundary <:+: l) :
    ∃ a b, l = a ++ boundary ++ b ∧ ¬ boundary <:+: a ++ ['\''] := by
  induction l with
  | nil => simp [boundary] at h
  | cons c l ih =>
    by_cases hfront : boundary <+: c :: l
    · obtain ⟨b, hb⟩ := hfront
      exact ⟨[], b, hb.symm, by decide⟩
    · obtain ⟨a, b, rfl, ha⟩ := ih ((List.infix_cons_iff.1 h).resolve_left hfront)
      refine ⟨c :: a, b, by simp, fun hin => ?_⟩
      rcases List.infix_cons_iff.1 hin with hin | hin
      · refine hfront (hin.trans ⟨' ' :: '\'' :: b, ?_⟩)
        simp [boundary]
      · exact ha hin

/-- Every string is what self-contained strings are joined to, unless it ends as if another argument
were to follow; then it is so with the boundary that follows. -/
theorem exists_selfContained_parts (u : List Char) :
    ∃ ds : List (List Char), ds ≠ [] ∧ (∀ d ∈ ds, ¬ boundary <:+: d ++ ['\'']) ∧
      (boundary.intercalate ds = u ∨ boundary.intercalate (ds ++ [[' ', '\'']]) = u ++ boundary) := by
  induction hlength : u.length using Nat.strong_induction_on generalizing u with
  | _ n ih =>
    by_cases hu : boundary <:+: u ++ ['\'']
    · obtain ⟨a, b, hab, ha⟩ := exists_first_boundary hu
      rcases List.eq_nil_or_concat b with rfl | ⟨b, c, rfl⟩
      · have hua : u = a ++ ['\'', ' '] := by
          have hends : u ++ ['\''] = (a ++ ['\'', ' ']) ++ ['\''] := by simpa [boundary] using hab
          exact List.append_cancel_right hends
        exact ⟨[a], by simp, by simpa using ha, .inr (by simp [hua, boundary])⟩
      · rw [List.concat_eq_append, ← List.append_assoc] at hab
        obtain ⟨rfl, -⟩ := List.append_inj' hab rfl
        obtain ⟨ds, hne, hds, hjoin⟩ := ih b.length (by simp [← hlength, boundary]; omega) b rfl
        refine ⟨a :: ds, by simp, List.forall_mem_cons.2 ⟨ha, hds⟩, ?_⟩
        cases ds with
        | nil => exact absurd rfl hne
        | cons d ds =>
          refine hjoin.imp (fun h => ?_) fun h => ?_
          · rw [List.intercalate_cons_cons, h]
          · rw [List.cons_append, List.cons_append, List.intercalate_cons_cons, ← List.cons_append, h]
            simp
    · exact ⟨[u], by simp, by simpa using hu, .inl (by simp)⟩

theorem exists_same_intercalate {u : String} (hu : ¬ SelfContained u) :
    ∃ xs ys : List String, (∀ x ∈ xs ++ ys, x = u ∨ SelfContained x) ∧ xs ≠ [] ∧ ys ≠ [] ∧ xs ≠ ys ∧
      boundary.intercalate (xs.map String.toList) = boundary.intercalate (ys.map String.toList) := by
  obtain ⟨ds, hne, hds, hjoin⟩ := exists_selfContained_parts u.toList
  have htexts (ds : List (List Char)) : (ds.map String.ofList).map String.toList = ds := by simp
  have hcontained : ∀ x ∈ ds.map String.ofList, SelfContained x := by
    intro x hx
    obtain ⟨d, hd, rfl⟩ := List.mem_map.1 hx
    simpa [SelfContained] using hds d hd
  have hout : u ∉ ds.map String.ofList := fun h => hu (hcontained u h)
  rcases hjoin with hjoin | hjoin
  · refine ⟨[u], ds.map String.ofList, ?_, by simp, by simpa using hne, ?_, ?_⟩
    · intro x hx
      rcases List.mem_cons.1 hx with rfl | hx
      · exact .inl rfl
      · exact .inr (hcontained x hx)
    · intro h
      exact hout (h ▸ List.mem_singleton_self u)
    · rw [htexts]
      simpa using hjoin.symm
  · refine ⟨[u, ""], ds.map String.ofList ++ [" '"], ?_, by simp, by simp, ?_, ?_⟩
    · have hempty : SelfContained "" := by decide
      have hlast : SelfContained " '" := by decide
      intro x hx
      simp only [List.mem_append, List.mem_cons, List.not_mem_nil, or_false] at hx
      rcases hx with (rfl | rfl) | hx | rfl
      · exact .inl rfl
      · exact .inr hempty
      · exact .inr (hcontained x hx)
      · exact .inr hlast
    · intro h
      have hlast := congrArg List.getLast? h
      simp at hlast
    · rw [List.map_append, htexts]
      simpa using hjoin.symm

/-- **String arguments can be read from a call** that was printed of self-contained strings. In general
a call keeps the strings joined by the boundary of two arguments. So strings that are not self-contained
cannot be told from others: with a single one of them, some calls can be read in two ways. -/
theorem string_arguments_of_call (name : String) :
    (∀ xs, ∃ text, stringCall name xs = .ok text) ∧
    (∀ xs ys, stringCall name xs = stringCall name ys ↔ (xs = [] ↔ ys = []) ∧
      boundary.intercalate (xs.map String.toList) = boundary.intercalate (ys.map String.toList)) ∧
    (∀ xs ys, (∀ x ∈ xs ++ ys, SelfContained x) → stringCall name xs = stringCall name ys → xs = ys) ∧
    ∀ u, ¬ SelfContained u → ∃ xs ys, (∀ x ∈ xs ++ ys, x = u ∨ SelfContained x) ∧
      stringCall name xs = stringCall name ys ∧ xs ≠ ys := by
  refine ⟨fun xs => ⟨_, stringCall_eq name xs⟩, stringCall_eq_iff name, fun xs ys h hcall => ?_,
    fun u hu => ?_⟩
  · obtain ⟨hnil, hjoin⟩ := (stringCall_eq_iff name xs ys).1 hcall
    by_cases hx : xs = []
    · rw [hx, hnil.1 hx]
    · have htexts : xs.map String.toList = ys.map String.toList := by
        refine intercalate_boundary_inj (by simpa using hx) (by simpa using mt hnil.2 hx) ?_ ?_ hjoin
        · simpa [SelfContained] using fun x hx => h x (List.mem_append_left _ hx)
        · simpa [SelfContained] using fun y hy => h y (List.mem_append_right _ hy)
      exact (List.map_injective_iff.2 fun _ _ => String.toList_injective) htexts
  · obtain ⟨xs, ys, hstrings, hx, hy, hne, hjoin⟩ := exists_same_intercalate hu
    exact ⟨xs, ys, hstrings, (stringCall_eq_iff name xs ys).2 ⟨by simp [hx, hy], hjoin⟩, hne⟩

/-- Quotes and blanks inside a string do no harm by themselves. -/
theorem string_arguments_of_call_sample :
    stringCall "t" ["it's", "'", " a "] ≠ stringCall "t" ["it's", "' a "] :=
  fun h => absurd ((string_arguments_of_call "t").2.2.1 _ _ (by decide) h) (by decide)

/-- A string that looks like two arguments is printed as these two. -/
theorem string_arguments_lost : stringCall "t" ["a' 'b"] = stringCall "t" ["a", "b"] ∧
    ["a' 'b"] ≠ ["a", "b"] := by
  refine ⟨(stringCall_eq_iff "t" _ _).2 ⟨by simp, by decide⟩, by decide⟩

end TemplateRecovery
