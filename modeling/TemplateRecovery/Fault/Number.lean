import TemplateRecovery.Fault.Basic
import TemplateRecovery.Number.Integer
import TemplateRecovery.Number.Reader

/-!
# Numbers that have to be there

Reading a number from a text, with the fault that a text without one is.
-/

namespace TemplateRecovery

namespace Fault

def readInt (s : String) : Except Fault Int :=
  let unsigned := match Text.trimMargins s.toList with
    | '-' :: cs => cs
    | '+' :: cs => cs
    | cs => cs
  match Integer.digits? unsigned, Integer.ofText? s with
  | some ds, none => .error (.tooManyDigits ds.length)
  | _, some n => .ok n
  | none, none => .error (.notInteger 10 s)

def readFloat (s : String) : Except Fault Binary64 :=
  match Binary64.ofText? s with
  | some x => .ok x
  | none => .error (.notNumber s)

end Fault

end TemplateRecovery
