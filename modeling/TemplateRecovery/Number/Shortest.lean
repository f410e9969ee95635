import TemplateRecovery.Number.Binary64

/-!
# Shortest decimal text of a double

A double stands for every real number that rounds to it, an interval around its exact value. Its
text has the fewest significant digits with which a decimal lies in that interval, and of the
decimals with that many digits the one nearest to the exact value.

* `Binary64.Interval` is the interval, over a common denominator.
* `Binary64.shortest` finds the digits and the position of the decimal point.
* `Binary64.text` writes them: positional while the point stays within sixteen places, with an
  exponent otherwise.
-/

namespace TemplateRecovery

namespace Binary64

/-- The reals that round to a double: from `low` to `high` around `value`, all over `den`, the ends
included when `closed`. -/
structure Interval where
  low : Nat
  value : Nat
  high : Nat
  den : Nat
  closed : Bool

/-- The interval of `m · 2 ^ e`: half a unit to each side, but only a quarter below a power of two,
where the doubles are twice as dense. -/
def interval (m : Nat) (e : Int) : Interval :=
  let (n, d) := ratio m e
  let (unit, _) := ratio 1 e
  let below := if m = Nat.pow 2 (precision - 1) ∧ leastExponent < e then unit else 2 * unit
  { low := 4 * n - below, value := 4 * n, high := 4 * n + 2 * unit, den := 4 * d,
    closed := m % 2 = 0 }

/-- Whether the decimal `num / den` rounds to the double. -/
def Interval.contains (i : Interval) (num den : Nat) : Bool :=
  let low := i.low * den
  let high := i.high * den
  let x := num * i.den
  (low < x && x < high) || (i.closed && (low == x || x == high))

/-- A decimal: `digits · 10 ^ exponent`. -/
structure Decimal where
  digits : Nat
  exponent : Int
  deriving DecidableEq, Repr

def Decimal.ratio (x : Decimal) : Nat × Nat :=
  if 0 ≤ x.exponent then (x.digits * Nat.pow 10 x.exponent.toNat, 1)
  else (x.digits, Nat.pow 10 (-x.exponent).toNat)

/-- Whether a decimal rounds to the double. -/
def Interval.holds (i : Interval) (x : Decimal) : Bool :=
  let (n, d) := x.ratio
  i.contains n d

/-- The neighbour below the exact value on the grid of multiples of `10 ^ exponent`. -/
def Interval.floor (i : Interval) (exponent : Int) : Nat :=
  if 0 ≤ exponent then i.value / (i.den * Nat.pow 10 exponent.toNat)
  else i.value * Nat.pow 10 (-exponent).toNat / i.den

/-- Twice the distance of the exact value to the grid point below it, compared with the distance
between two grid points. -/
def Interval.half (i : Interval) (exponent : Int) : Ordering :=
  if 0 ≤ exponent then
    let unit := i.den * Nat.pow 10 exponent.toNat
    compare (2 * (i.value % unit)) unit
  else compare (2 * (i.value * Nat.pow 10 (-exponent).toNat % i.den)) i.den

/-- The nearest of the two grid neighbours that round to the double, if one does; a tie goes to the
even neighbour. -/
def Interval.onGrid (i : Interval) (exponent : Int) : Option Decimal :=
  let lower : Decimal := ⟨i.floor exponent, exponent⟩
  let upper : Decimal := ⟨i.floor exponent + 1, exponent⟩
  match i.holds lower, i.holds upper with
  | true, false => some lower
  | false, true => some upper
  | false, false => none
  | true, true =>
    match i.half exponent with
    | .lt => some lower
    | .gt => some upper
    | .eq => some (if lower.digits % 2 = 0 then lower else upper)

/-- The least `k` with `value < 10 ^ k`. -/
def Interval.magnitude (i : Interval) : Int :=
  let q := i.value / i.den
  if q ≠ 0 then digitCount q
  else 1 - (digitCount (i.den / i.value) : Int) +
    (if i.value * Nat.pow 10 (digitCount (i.den / i.value) - 1) = i.den then 1 else 0)

/-- The first grid, from coarse to fine, that holds a decimal of the interval. -/
def Interval.search (i : Interval) (magnitude : Int) : Nat → Nat → Option Decimal
  | 0, _ => none
  | fuel + 1, places =>
    match i.onGrid (magnitude - places) with
    | some x => some x
    | none => i.search magnitude fuel (places + 1)

/-- A decimal without trailing zeros in its digits. -/
def Decimal.trim : Nat → Decimal → Decimal
  | 0, x => x
  | fuel + 1, x =>
    if x.digits ≠ 0 ∧ x.digits % 10 = 0 then Decimal.trim fuel ⟨x.digits / 10, x.exponent + 1⟩
    else x

/-- The shortest decimal that rounds to the positive double `m · 2 ^ e`; seventeen digits always
suffice. -/
def shortest (m : Nat) (e : Int) : Decimal :=
  let i := interval m e
  match i.search i.magnitude 17 1 with
  | some x => x.trim 400
  | none => ⟨0, 0⟩

def digitText (n : Nat) : List Char := Nat.toDigits 10 n

/-- The exponent mark: a sign and at least two digits. -/
def exponentText (e : Int) : List Char :=
  let ds := digitText e.natAbs
  'e' :: (if e < 0 then '-' else '+') :: (if ds.length < 2 then '0' :: ds else ds)

/-- Digits with the point after the first `point` of them: positional when the point stands between
the fourth place before the first digit and the sixteenth after it, with an exponent otherwise. -/
def place (ds : List Char) (point : Int) : List Char :=
  if -4 < point ∧ point ≤ 16 then
    if point ≤ 0 then '0' :: '.' :: (List.replicate (-point).toNat '0' ++ ds)
    else if (ds.length : Int) ≤ point then
      ds ++ List.replicate (point.toNat - ds.length) '0' ++ ['.', '0']
    else ds.take point.toNat ++ '.' :: ds.drop point.toNat
  else
    match ds with
    | [] => []
    | d :: [] => d :: exponentText (point - 1)
    | d :: rest => d :: '.' :: rest ++ exponentText (point - 1)

def magnitudeText (m : Nat) (e : Int) : List Char :=
  if m = 0 then ['0', '.', '0']
  else
    let x := shortest m e
    let ds := digitText x.digits
    place ds (ds.length + x.exponent)

/-- The shortest text that reads back as the same double. -/
def text : Binary64 → String
  | .nan => "nan"
  | .infinity negative => if negative then "-inf" else "inf"
  | .finite negative m e =>
    String.ofList (if negative then '-' :: magnitudeText m e else magnitudeText m e)

end Binary64

end TemplateRecovery
