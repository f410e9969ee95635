import TemplateRecovery.Method.Operator

/-!
# The functions of numbers
-/

namespace TemplateRecovery

namespace Binary64

/-- The product of two doubles, rounded to nearest. -/
def mul : Binary64 → Binary64 → Binary64
  | .finite a m e, .finite b m' e' =>
    let (n, d) := ratio m e
    let (n', d') := ratio m' e'
    ofRatio (a != b) (n * n') (d * d')
  | .infinity a, .infinity b => .infinity (a != b)
  | .infinity a, .finite b m _ => if m = 0 then .nan else .infinity (a != b)
  | .finite a m _, .infinity b => if m = 0 then .nan else .infinity (a != b)
  | _, _ => .nan

end Binary64

namespace Method

/-- The number of ones among the binary digits of a number. -/
def bitCount : Nat → Nat → Nat
  | 0, _ => 0
  | fuel + 1, n => n % 2 + bitCount fuel (n / 2)

def callWhole (n : Int) (name : String) (args : List Value) : Act Value :=
  match name, args with
  | "conjugate", [] => return .int n
  | "__pos__", [] => return .int n
  | "__int__", [] => return .int n
  | "__index__", [] => return .int n
  | "__trunc__", [] => return .int n
  | "__floor__", [] => return .int n
  | "__ceil__", [] => return .int n
  | "__neg__", [] => return .int (-n)
  | "__abs__", [] => return .int n.natAbs
  | "__invert__", [] => return .int (-n - 1)
  | "__bool__", [] => return .bool (n != 0)
  | "bit_length", [] => return .int (if n = 0 then 0 else n.natAbs.log2 + 1)
  | "bit_count", [] => return .int (bitCount (n.natAbs.log2 + 1) n.natAbs)
  | "as_integer_ratio", [] => Act.new (.tuple [.int n, .int 1])
  | name, [w] =>
    match w.index? with
    | some k =>
      match name with
      | "__add__" => return .int (n + k)
      | "__radd__" => return .int (k + n)
      | "__sub__" => return .int (n - k)
      | "__rsub__" => return .int (k - n)
      | "__mul__" => return .int (n * k)
      | "__rmul__" => return .int (k * n)
      | _ => Act.fail .wrongType
    | none =>
      if ["__add__", "__radd__", "__sub__", "__rsub__", "__mul__", "__rmul__"].contains name then
        return noAnswer
      else Act.fail .wrongType
  | _, _ => Act.fail .wrongType

def lowestTerms : Binary64 → Act Value
  | .nan => Act.fail (.raised "ValueError" "cannot convert NaN to integer ratio")
  | .infinity _ => Act.fail .overflow
  | .finite negative m e =>
    let (n, d) := Binary64.ratio m e
    let g := max (Nat.gcd n d) 1
    Act.new (.tuple [.int (Binary64.signed negative (n / g)), .int (d / g)])

def doubleOf? (v : Value) : Option Binary64 :=
  v.number?.map fun
    | .inl n => Binary64.ofInt n
    | .inr x => x

/-- Calls a function of a double, which is also given as a value. -/
def callDouble (v : Value) (x : Binary64) (name : String) (args : List Value) : Act Value :=
  match name, args with
  | "conjugate", [] => return v
  | "__pos__", [] => return v
  | "__float__", [] => return v
  | "__neg__", [] => Act.newFloat x.neg
  | "__bool__", [] => return .bool (!x.isZero)
  | "is_integer", [] => return .bool x.toInt?.isSome
  | "as_integer_ratio", [] => lowestTerms x
  | name, [w] =>
    match doubleOf? w with
    | some y =>
      match name with
      | "__add__" => Act.newFloat (x.add y)
      | "__radd__" => Act.newFloat (y.add x)
      | "__sub__" => Act.newFloat (x.add y.neg)
      | "__rsub__" => Act.newFloat (y.add x.neg)
      | "__mul__" => Act.newFloat (x.mul y)
      | "__rmul__" => Act.newFloat (y.mul x)
      | _ => Act.fail .wrongType
    | none =>
      if ["__add__", "__radd__", "__sub__", "__rsub__", "__mul__", "__rmul__"].contains name then
        return noAnswer
      else Act.fail .wrongType
  | _, _ => Act.fail .wrongType

def callNumber (v : Value) (name : String) (args : List Value) : Act Value :=
  match v.number? with
  | some (.inl n) => callWhole n name args
  | some (.inr x) => callDouble v x name args
  | none => Act.fail .wrongType

end Method

end TemplateRecovery
