import TemplateRecovery.Fault.Basic

/-!
# Indentation

A nested part of a template is indented by one more step than what surrounds it. A step of zero, or
no step at all, stands for the default. A `Width` is meant to be a whole number; one that is something
else is refused only by the operations that cannot do with it. A width is limited by its range alone,
not by the memory that its blanks would take.
-/

namespace TemplateRecovery

/-- A width of indentation, or a step of it. -/
structure Width where
  amount : View

namespace Width

def ofInt (n : Int) : Width := ⟨.int n⟩

/-- The step of indentation when none is given. -/
def defaultStep : Int := 4

/-- The step of indentation in effect. -/
def effective (step : View) : Width := if step.truthy then ⟨step⟩ else ofInt defaultStep

/-- The widths that can be written are numbers of 64 bits. -/
def limit : Int := 0x8000000000000000

/-- So many blanks; none if the width is negative. -/
def blanks (n : Int) : String := String.ofList (List.replicate n.toNat ' ')

/-- The whole number that a view stands for; truth values count as one and zero. -/
def index? : View → Option Int
  | .int n => some n
  | .bool b => some (if b then 1 else 0)
  | _ => none

/-- The number that a view stands for, as a double. -/
def double? : View → Option Binary64
  | .float x => some x
  | v => (index? v).map Binary64.ofInt

/-- The indentation of a width, which has to be a whole number. -/
def pad (w : Width) : Except Fault String :=
  match index? w.amount with
  | some n =>
    if n < -limit ∨ limit ≤ n then .error .overflow else .ok (blanks n)
  | none => .error .wrongType

def sum : View → View → Except Fault View
  | .str a, .str b => .ok (.str (a ++ b))
  | .list a, .list b => .ok (.list (a ++ b))
  | .tuple a, .tuple b => .ok (.tuple (a ++ b))
  | v, w =>
    match index? v, index? w, double? v, double? w with
    | some m, some n, _, _ => .ok (.int (m + n))
    | _, _, some x, some y => .ok (.float (x.add y))
    | _, _, _, _ => .error .wrongType

def deeper (w step : Width) : Except Fault Width := do
  let v ← sum w.amount step.amount
  return ⟨v⟩

end Width

end TemplateRecovery
