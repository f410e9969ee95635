/-!
# Joining texts

`Text.join` puts a separator between consecutive texts. `Text.group` adds a joined group after a
blank, and nothing when the group is empty.
-/

namespace TemplateRecovery

namespace Text

/-- The texts one after the other, with a separator between two of them. -/
def join (sep : String) : List String → String
  | [] => ""
  | [s] => s
  | s :: rest => s ++ sep ++ join sep rest

@[simp] theorem join_nil (sep : String) : join sep [] = "" := rfl

@[simp] theorem join_singleton (sep s : String) : join sep [s] = s := rfl

theorem join_cons_cons (sep s t : String) (rest : List String) :
    join sep (s :: t :: rest) = s ++ sep ++ join sep (t :: rest) := rfl

/-- Joining two lists one after the other puts one separator between what they join to. -/
theorem join_append (sep : String) {xs ys : List String} (hx : xs ≠ []) (hy : ys ≠ []) :
    join sep (xs ++ ys) = join sep xs ++ sep ++ join sep ys := by
  induction xs with
  | nil => exact absurd rfl hx
  | cons s rest ih =>
    cases rest with
    | nil =>
      cases ys with
      | nil => exact absurd rfl hy
      | cons t more => rfl
    | cons t more =>
      have h := ih (List.cons_ne_nil t more)
      rw [List.cons_append] at h
      rw [List.cons_append, List.cons_append, join_cons_cons, h, join_cons_cons]
      simp only [String.append_assoc]

/-- A group after a blank; an empty group leaves no blank either. -/
def group (s : String) : String := if s = "" then "" else " " ++ s

end Text

end TemplateRecovery
