import TemplateRecovery.Fault.Number
import TemplateRecovery.Value.Basic
import TemplateRecovery.Yaml.Cursor
import TemplateRecovery.Yaml.Tag

/-!
# What scalars stand for

The text of a scalar and its tag give a value, or a fault if the text does not fit the tag.
-/

namespace TemplateRecovery

namespace Yaml

namespace Scalar

def failure {α : Type} (cause : Fault) : Reading α := .error (.fault cause)

/-- A computation that may end with a fault. -/
def lift {α : Type} : Except Fault α → Reading α
  | .ok a => .ok a
  | .error cause => failure cause

def withoutUnderscores (cs : List Char) : List Char := cs.filter (· != '_')

/-- A sign and what follows it; there has to be something. -/
def sign : List Char → Reading (Bool × List Char)
  | [] => failure (.raised "IndexError" "string index out of range")
  | '-' :: cs => .ok (true, cs)
  | '+' :: cs => .ok (false, cs)
  | cs => .ok (false, cs)

def inBase (base : Nat) (cs : List Char) : Reading Nat :=
  let ds := cs.map fun c => (Text.hexValue? c).filter (· < base)
  if cs.isEmpty || ds.contains none then failure (.notInteger base (String.ofList cs))
  else .ok (ds.foldl (fun n d => base * n + d.getD 0) 0)

def integer (text : String) : Reading Int := do
  let (negative, cs) ← sign (withoutUnderscores text.toList)
  let signed (n : Int) : Int := if negative then -n else n
  match cs with
  | '0' :: 'b' :: cs => return signed (← inBase 2 cs)
  | '0' :: 'x' :: cs => return signed (← inBase 16 cs)
  | '0' :: 'o' :: cs => return signed (← inBase 8 cs)
  | cs => return signed (← lift (Fault.readInt (String.ofList cs)))

/-- A number with a fraction. A number that is none is always the same one. -/
def float (text : String) : Reading Value := do
  let (negative, cs) ← sign (withoutUnderscores (text.toList.map Char.toLower))
  let word := String.ofList cs
  if word = ".inf" then return .float (.infinity negative)
  else if word = ".nan" then return .nan 0
  else
    let x ← lift (Fault.readFloat word)
    return Value.ofBinary64 0 (if negative then x.neg else x)

/-- The spellings of truth values that a tag makes possible. -/
def truthWords : List (String × Bool) := [
  ("yes", true), ("no", false), ("y", true), ("n", false), ("true", true), ("false", false),
  ("on", true), ("off", false)]

def truth (text : String) : Reading Bool :=
  let word := text.toLower
  match truthWords.lookup word with
  | some b => .ok b
  | none => failure (.noKey (.str word))

def moment (text : String) : Reading Moment :=
  match Timestamp.ofText? (Tag.chomp text.toList) with
  | none => malformed
  | some t =>
    match t.moment with
    | .ok m => .ok m
    | .error (.parts problem) => failure (.notMoment problem)
    | .error .outside => failure .overflow

end Scalar

end Yaml

end TemplateRecovery
