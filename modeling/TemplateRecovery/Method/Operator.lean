import TemplateRecovery.Order

/-!
# Operators as functions

A value can be asked to compare itself with another one. Values of kinds that do not go together give
no answer, which is a value of its own.
-/

namespace TemplateRecovery

namespace Method

/-- What an operator gives that does not apply. -/
def noAnswer : Value := .foreign "NotImplementedType" "NotImplemented"

/-- The kinds of values within which comparing makes sense. -/
inductive Realm where
  | whole
  | double
  | text
  | list
  | tuple
  | map
  | record
  | expression (kind : ExprKind)
  | morph (kind : MorphKind)
  deriving DecidableEq, Inhabited, Repr

def realm? (s : Store) : Value → Option Realm
  | .bool _ => some .whole
  | .int _ => some .whole
  | .float _ => some .double
  | .nan _ => some .double
  | .str _ => some .text
  | .object id =>
    match s.object? id with
    | some (.list _) => some .list
    | some (.tuple _) => some .tuple
    | some (.map _) => some .map
    | some (.record _) => some .record
    | some (.expression e) => some (.expression e.kind)
    | some (.morph m _) => some (.morph m.kind)
    | _ => none
  | _ => none

/-- Whether a value answers how it compares with another. -/
def answers (s : Store) (v w : Value) : Bool :=
  match realm? s v, realm? s w with
  | some .double, some .whole => true
  | some a, some b => a == b
  | _, _ => false

/-- Whether values of a kind have an order. -/
def isOrdered : Realm → Bool
  | .whole => true
  | .double => true
  | .text => true
  | .list => true
  | .tuple => true
  | _ => false

/-- Whether a value is the same as another, if it can tell. -/
def sameAs (s : Store) (v w : Value) : Option Bool :=
  if answers s v w then some (s.equal v w)
  else if v == w then some true
  else none

/-- A truth value, or no answer. -/
def answered (b : Option Bool) : Value := (b.map Value.bool).getD noAnswer

/-- How a value is ordered with another, given a test on the two orders and on equality. -/
def ordered (s : Store) (v w : Value) (test : Bool → Bool → Bool → Bool) : Act Value :=
  if answers s v w && ((realm? s v).map isOrdered).getD false then do
    let less ← Act.lift (Order.less s v w)
    let greater ← Act.lift (Order.less s w v)
    return .bool (test less greater (s.equal v w))
  else return noAnswer

/-- Compares a value with another by the name of an operator, if it is one. -/
def compare? (s : Store) (name : String) (v w : Value) : Option (Act Value) :=
  match name with
  | "__eq__" => some (return answered (sameAs s v w))
  | "__ne__" => some (return answered ((sameAs s v w).map (!·)))
  | "__lt__" => some (ordered s v w fun less _ _ => less)
  | "__gt__" => some (ordered s v w fun _ greater _ => greater)
  | "__le__" => some (ordered s v w fun less _ same => less || same)
  | "__ge__" => some (ordered s v w fun _ greater same => greater || same)
  | _ => none

end Method

end TemplateRecovery
