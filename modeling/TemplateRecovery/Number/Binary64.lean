/-!
# Double precision numbers

A `Binary64` is a sign, a whole significand and a power of two, or one of the special values. No
floating point operation of the machine is involved, so every rule below is a rule about whole
numbers.

* `Binary64.ofRatio` rounds a ratio of whole numbers to the nearest double, ties to even.
* `Binary64.ofDecimal` reads `digits · 10 ^ exponent`.
* `Binary64.toInt?` is the whole number that a double stands for, if it stands for one.
* `Binary64.add` is the rounded sum.
* `Binary64.same` is numeric equality: the two zeros are equal and a NaN differs from itself.
-/

namespace TemplateRecovery

/-- A double precision number; `finite neg m e` stands for `± m · 2 ^ e`. -/
inductive Binary64 where
  | nan
  | infinity (negative : Bool)
  | finite (negative : Bool) (significand : Nat) (exponent : Int)
  deriving DecidableEq, Inhabited, Repr

/-- The quotient rounded to the nearest whole number, a half going to the even neighbour. -/
def roundDiv (num den : Nat) : Nat :=
  let q := num / den
  let r := num % den
  if 2 * r < den then q
  else if den < 2 * r then q + 1
  else if q % 2 = 0 then q else q + 1

namespace Binary64

/-- Significands have at most this many bits. -/
def precision : Nat := 53

/-- The exponent of the smallest positive double. -/
def leastExponent : Int := -1074

/-- The exponent of the largest finite double. -/
def greatestExponent : Int := 971

/-- The ratio `num / den` divided by `2 ^ e`, as a ratio again. -/
def scaleDown (num den : Nat) (e : Int) : Nat × Nat :=
  if 0 ≤ e then (num, den * Nat.pow 2 e.toNat) else (num * Nat.pow 2 (-e).toNat, den)

/-- A significand of one bit too many is halved, and one too large to hold becomes infinite. -/
def normalize (negative : Bool) (m : Nat) (e : Int) : Binary64 :=
  let (m, e) := if m = Nat.pow 2 precision then (m / 2, e + 1) else (m, e)
  if greatestExponent < e then .infinity negative else .finite negative m e

/-- The double nearest to `± num / den`, ties to even. -/
def ofRatio (negative : Bool) (num den : Nat) : Binary64 :=
  if num = 0 ∨ den = 0 then .finite negative 0 leastExponent
  else
    let guess : Int := (num.log2 : Int) - (den.log2 : Int) - (precision : Int)
    let (n, d) := scaleDown num den guess
    let e := if n / d < Nat.pow 2 (precision - 1) then guess - 1
      else if Nat.pow 2 precision ≤ n / d then guess + 1 else guess
    let e := max e leastExponent
    let (n, d) := scaleDown num den e
    normalize negative (roundDiv n d) e

/-- The number of decimal digits of a whole number; zero has none. -/
def digitCount (n : Nat) : Nat := if n = 0 then 0 else (Nat.toDigits 10 n).length

/-- The double nearest to `± digits · 10 ^ exponent`; far too large and far too small magnitudes are
decided before any power is taken. -/
def ofDecimal (negative : Bool) (digits : Nat) (exponent : Int) : Binary64 :=
  let magnitude : Int := (digitCount digits : Int) + exponent
  if digits = 0 ∨ magnitude < -330 then .finite negative 0 leastExponent
  else if 320 < magnitude then .infinity negative
  else if 0 ≤ exponent then ofRatio negative (digits * Nat.pow 10 exponent.toNat) 1
  else ofRatio negative digits (Nat.pow 10 (-exponent).toNat)

/-- The magnitude of a finite double as a ratio of whole numbers. -/
def ratio (m : Nat) (e : Int) : Nat × Nat :=
  if 0 ≤ e then (m * Nat.pow 2 e.toNat, 1) else (m, Nat.pow 2 (-e).toNat)

/-- The whole number with this sign and magnitude. -/
def signed (negative : Bool) (n : Nat) : Int := if negative then -(n : Int) else n

/-- The whole number a double stands for. -/
def toInt? : Binary64 → Option Int
  | .finite negative m e =>
    let (n, d) := ratio m e
    if n % d = 0 then some (signed negative (n / d)) else none
  | _ => none

def same : Binary64 → Binary64 → Bool
  | .infinity a, .infinity b => a == b
  | .finite a m e, .finite b m' e' =>
    let (n, d) := ratio m e
    let (n', d') := ratio m' e'
    n * d' == n' * d && (a == b || n == 0)
  | _, _ => false

def sameInt (x : Binary64) (n : Int) : Bool := x.toInt? == some n

def neg : Binary64 → Binary64
  | .nan => .nan
  | .infinity negative => .infinity (!negative)
  | .finite negative m e => .finite (!negative) m e

/-- The double nearest to a whole number; infinite when it is too large. -/
def ofInt (n : Int) : Binary64 := ofRatio (decide (n < 0)) n.natAbs 1

/-- The exact sum of two finite doubles, rounded; a sum of zero is negative only if both terms are. -/
def addFinite (a : Bool) (m : Nat) (e : Int) (b : Bool) (m' : Nat) (e' : Int) : Binary64 :=
  let (n, d) := ratio m e
  let (n', d') := ratio m' e'
  let sum := signed a (n * d') + signed b (n' * d)
  ofRatio (if sum = 0 then a && b else decide (sum < 0)) sum.natAbs (d * d')

/-- The sum of two doubles, rounded to nearest. -/
def add : Binary64 → Binary64 → Binary64
  | .finite a m e, .finite b m' e' => addFinite a m e b m' e'
  | .infinity a, .infinity b => if a = b then .infinity a else .nan
  | .infinity a, .finite _ _ _ => .infinity a
  | .finite _ _ _, .infinity b => .infinity b
  | _, _ => .nan

/-- Only the two zeros count as zero. -/
def isZero : Binary64 → Bool
  | .finite _ m _ => m == 0
  | _ => false

end Binary64

end TemplateRecovery
