import TemplateRecovery.Text.Blank
import TemplateRecovery.Text.Digit

/-!
# Reading whole numbers

A whole number may be surrounded by blanks and start with a sign. Its digits may come from any
script, and single underscores may stand between them.
-/

namespace TemplateRecovery

namespace Integer

/-- The digits of a text in which single underscores may stand between digits. -/
def digits? : List Char → Option (List Char)
  | [] => none
  | [c] => if Text.isDigit c then some [c] else none
  | c :: '_' :: rest => if Text.isDigit c then (digits? rest).map (c :: ·) else none
  | c :: rest => if Text.isDigit c then (digits? rest).map (c :: ·) else none

/-- A number without its sign. -/
def natural? (cs : List Char) : Option Nat := do
  let ds ← digits? cs
  if Text.digitLimit < ds.length then none else some (Text.readNat ds)

def ofText? (s : String) : Option Int :=
  match Text.trimMargins s.toList with
  | '-' :: cs => (natural? cs).map fun n => -(n : Int)
  | '+' :: cs => (natural? cs).map fun n => (n : Int)
  | cs => (natural? cs).map fun n => (n : Int)

end Integer

end TemplateRecovery
