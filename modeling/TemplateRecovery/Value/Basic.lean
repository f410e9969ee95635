import TemplateRecovery.Moment
import TemplateRecovery.Number.Binary64
import TemplateRecovery.Value.Kind

/-!
# Values

A `Value` is what a register or a variable holds while a script or a program runs. Plain data are
held directly. Everything with parts of its own is an object of a store and is held by its identity,
so that two places can hold one object and see each other's changes.
-/

namespace TemplateRecovery

/-- The identity of an object of a store. -/
structure ObjectId where
  index : Nat
  deriving DecidableEq, Inhabited, Repr

/-- What a register or a variable holds. -/
inductive Value where
  | null
  | bool (b : Bool)
  | int (n : Int)
  | float (x : Binary64)
  /-- A number that is none; it equals itself only, so each has a tag of its own. -/
  | nan (tag : Nat)
  | str (s : String)
  | moment (m : Moment)
  /-- The kind of a node, a morph or an expression. -/
  | label (l : Label)
  /-- A type. -/
  | typeObject (name : String)
  /-- A function that every program can see. -/
  | builtin (name : String)
  /-- A function together with the value it works on. -/
  | method (owner : Value) (name : String)
  /-- The function that registers a template. -/
  | registrar
  /-- What the registration function fills. -/
  | capture
  /-- A value of some other type, of which only its text is known. -/
  | foreign (typeName text : String)
  | object (id : ObjectId)
  deriving DecidableEq, Inhabited, Repr

def sameNumber : Int ⊕ Binary64 → Int ⊕ Binary64 → Bool
  | .inl m, .inl n => m == n
  | .inl n, .inr x => x.sameInt n
  | .inr x, .inl n => x.sameInt n
  | .inr x, .inr y => x.same y

namespace Value

/-- The whole number a value stands for; truth values count as one and zero. -/
def index? : Value → Option Int
  | .int n => some n
  | .bool b => some (if b then 1 else 0)
  | _ => none

/-- The double, or the number that is none, with a fresh tag if one is needed. -/
def ofBinary64 (tag : Nat) : Binary64 → Value
  | .nan => .nan tag
  | x => .float x

def number? : Value → Option (Int ⊕ Binary64)
  | .bool b => some (.inl (if b then 1 else 0))
  | .int n => some (.inl n)
  | .float x => some (.inr x)
  | .nan _ => some (.inr .nan)
  | _ => none

/-- Whether two values without parts of their own are equal. -/
def samePlain : Value → Value → Bool
  | .moment a, .moment b => a.same b
  | v, w =>
    match v.number?, w.number? with
    | some m, some n => sameNumber m n
    | _, _ => false

def characters (s : String) : List Value := s.toList.map fun c => .str (String.singleton c)

end Value

end TemplateRecovery
