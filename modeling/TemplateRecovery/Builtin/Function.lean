import TemplateRecovery.Attribute.Basic
import TemplateRecovery.Builtin.Type
import TemplateRecovery.Order

/-!
# Calling a built-in function
-/

namespace TemplateRecovery

namespace Builtin

/-- The digits of a number in a base, with the mark of the base in front. -/
def inBase (mark : String) (base : Nat) (n : Int) : String :=
  (if n < 0 then "-" else "") ++ mark ++ String.ofList (Nat.toDigits base n.natAbs)

def digitsOf (mark : String) (base : Nat) (v : Value) : Act Value :=
  match v.index? with
  | some n => return .str (inBase mark base n)
  | none => Act.fail .wrongType

def magnitude : Value → Act Value
  | .float (.finite _ m e) => return .float (.finite false m e)
  | .float (.infinity _) => return .float (.infinity false)
  | .nan tag => return .nan tag
  | v =>
    match v.index? with
    | some n => return .int n.natAbs
    | none => Act.fail .wrongType

def plus (v w : Value) : Act Value :=
  match v.number?, w.number? with
  | some (.inl m), some (.inl n) => return .int (m + n)
  | some (.inl m), some (.inr y) => Act.newFloat ((Binary64.ofInt m).add y)
  | some (.inr x), some (.inl n) => Act.newFloat (x.add (.ofInt n))
  | some (.inr x), some (.inr y) => Act.newFloat (x.add y)
  | _, _ => Act.fail .wrongType

/-- The items of the single argument of a function that also takes several. -/
def extremeOf (name : String)
    (pick : Store → Value → List Value → Except Fault Value) : List Value → Act Value
  | [v] => do
    let items ← Container.items v
    match items with
    | [] => Act.fail (.raised "ValueError" (name ++ "() arg is an empty sequence"))
    | first :: rest => do
      let s ← Act.store
      Act.lift (pick s first rest)
  | first :: rest => do
    let s ← Act.store
    Act.lift (pick s first rest)
  | [] => Act.fail .wrongType

def character (n : Int) : Act Value :=
  if n < -0x80000000 ∨ 0x80000000 ≤ n then Act.fail .overflow
  else if n < 0 ∨ 0x110000 ≤ n then Act.fail .notCharacter
  else return .str (String.singleton (Char.ofNat n.toNat))

/-- A text in which other characters than the plain ones are written as escapes. -/
def plainAscii (s : String) : String :=
  String.ofList (s.toList.flatMap fun c => if c.toNat < 128 then [c] else Text.escapeCode c)

/-- The prime by which numbers are hashed. -/
def hashPrime : Nat := 0x1fffffffffffffff

/-- The hash of a number `± m · 2 ^ e`: equal numbers have one hash, and `-1` is never one. -/
def hashOfRatio (negative : Bool) (m : Nat) (e : Int) : Int :=
  let h := m % hashPrime * Nat.pow 2 (e % 61).toNat % hashPrime
  let h := Binary64.signed negative h
  if h = -1 then -2 else h

/-- Texts with a blank between two of them. -/
def spaced : List Value → Act String
  | [] => return ""
  | [v] => Act.text v
  | v :: rest => do
    let text ← Act.text v
    let more ← spaced rest
    return text ++ " " ++ more

def callFunction (name : String) (args : List Value) : Act Value := do
  let s ← Act.store
  match name, args with
  | "len", [v] => do
    let n ← Container.length v
    return .int n
  | "sorted", [v] => do
    let items ← Container.items v
    let sorted ← Act.lift (Order.sort s items)
    Act.new (.list sorted)
  | "print", args => do
    let text ← spaced args
    Act.print (text ++ "\n")
    return .null
  | "repr", [v] => do
    let text ← Act.lift (Fault.written (s.view v))
    return .str text
  | "ascii", [v] => do
    let text ← Act.lift (Fault.written (s.view v))
    return .str (plainAscii text)
  | "hash", [v] =>
    match v.number? with
    | some (.inl n) => return .int (hashOfRatio (decide (n < 0)) n.natAbs 0)
    | some (.inr (.infinity negative)) => return .int (if negative then -314159 else 314159)
    | some (.inr (.finite negative m e)) => return .int (hashOfRatio negative m e)
    | _ => if s.isKey v then return .int 0 else Act.fail .wrongType
  | "format", [v] => do
    let text ← Act.text v
    return .str text
  | "abs", [v] => magnitude v
  | "all", [v] => do
    let items ← Container.items v
    return .bool (items.all s.truthy)
  | "any", [v] => do
    let items ← Container.items v
    return .bool (items.any s.truthy)
  | "sum", [v] => do
    let items ← Container.items v
    items.foldlM plus (.int 0)
  | "min", args => extremeOf "min" Order.least args
  | "max", args => extremeOf "max" Order.greatest args
  | "callable", [v] => return .bool (s.isCallable v)
  | "bin", [v] => digitsOf "0b" 2 v
  | "oct", [v] => digitsOf "0o" 8 v
  | "hex", [v] => digitsOf "0x" 16 v
  | "chr", [v] =>
    match v.index? with
    | some n => character n
    | none => Act.fail .wrongType
  | "ord", [.str t] =>
    match t.toList with
    | [c] => return .int c.toNat
    | _ => Act.fail .wrongType
  | "round", [v] =>
    match v with
    | .float (.finite negative m e) =>
      let (n, d) := Binary64.ratio m e
      return .int (Binary64.signed negative (roundDiv n d))
    | .str _ => Act.fail .wrongType
    | v => toInt v
  | "getattr", [v, .str field] => Attribute.get v field
  | "getattr", [v, .str field, missing] => do
    let found ← Attribute.find? v field
    return found.getD missing
  | "hasattr", [v, .str field] => do
    let found ← Attribute.find? v field
    return .bool found.isSome
  | "setattr", [v, .str field, new] => do
    Attribute.set v field new
    return .null
  | "iter", [v] => do
    requireItems v
    made (walkerName s v)
  | _, _ => Act.fail .wrongType

end Builtin

end TemplateRecovery
