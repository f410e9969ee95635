import TemplateRecovery.Store.Act

/-!
# Equality and order of values

Numbers are compared as numbers, strings by their characters, and arrays item by item. Mappings,
objects with fields, expressions and morphs are equal when their contents are; every other object is
equal to itself only. Only numbers, strings, and arrays of one kind have an order.

* `Store.equal` tells whether two values are equal.
* `Order.less` tells which of two values comes first, `Order.sort` sorts.
-/

namespace TemplateRecovery

namespace Binary64

def less : Binary64 → Binary64 → Bool
  | .finite a m e, .finite b m' e' =>
    let (n, d) := ratio m e
    let (n', d') := ratio m' e'
    decide (signed a (n * d') < signed b (n' * d))
  | .infinity a, .infinity b => a && !b
  | .infinity a, .finite _ _ _ => a
  | .finite _ _ _, .infinity b => !b
  | _, _ => false

/-- Whether a double is smaller than a whole number. -/
def lessInt : Binary64 → Int → Bool
  | .finite a m e, k =>
    let (n, d) := ratio m e
    decide (signed a n < k * d)
  | .infinity a, _ => a
  | .nan, _ => false

/-- Whether a whole number is smaller than a double. -/
def intLess (k : Int) : Binary64 → Bool
  | .finite a m e =>
    let (n, d) := ratio m e
    decide (k * d < signed a n)
  | .infinity a => !a
  | .nan => false

end Binary64

def lessNumber : Int ⊕ Binary64 → Int ⊕ Binary64 → Bool
  | .inl m, .inl n => decide (m < n)
  | .inl n, .inr x => x.intLess n
  | .inr x, .inl n => x.lessInt n
  | .inr x, .inr y => x.less y

namespace Store

/-- The contents of a container, as one more value. -/
def heldItems? (s : Store) : Held (List Value) → Option (List Value)
  | .own items => some items
  | .shared v => s.array? v

def heldEntries? (s : Store) : Held Entries → Option Entries
  | .own entries => some entries
  | .shared v => s.entries? v

/-- The parts by which two objects are compared: values, lists and mappings. -/
structure Compared where
  values : List Value := []
  lists : List (Option (List Value)) := []
  maps : List (Option Entries) := []

def comparedCall (s : Store) (c : HelperCall) (more : List Value) : Compared :=
  { values := c.name :: more, lists := [s.heldItems? c.params], maps := [s.heldEntries? c.hash] }

/-- What is compared of an object; nothing if it is equal to itself only. -/
def compared? (s : Store) : Object → Option Compared
  | .list items => some { lists := [some items] }
  | .tuple items => some { lists := [some items] }
  | .map entries => some { maps := [some entries] }
  | .record fields => some { maps := [some (fields.map fun (k, v) => (.str k, v))] }
  | .expression (.literal v) => some { values := [v] }
  | .expression (.path p) => some { values := [p] }
  | .expression (.concat parts) => some { lists := [s.heldItems? parts] }
  | .expression (.subexpr c) => some (s.comparedCall c [])
  | .morph (.inline c) _ => some (s.comparedCall c [])
  | .morph (.element c) _ => some (s.comparedCall c [])
  | .morph (.attribute key value _) _ => some { values := [key, value] }
  | .morph (.content v) _ => some { values := [v] }
  | .morph (.block c primary alternate) _ => some (s.comparedCall c [primary, alternate])
  | .environment document hooks => some { values := [document, hooks] }
  | _ => none

def equalItems (equal : Value → Value → Bool) (a b : List Value) : Bool :=
  a.length == b.length && (a.zip b).all fun (v, w) => equal v w

/-- Whether two mappings bind the same keys to equal values. -/
def equalEntries (s : Store) (equal : Value → Value → Bool) (a b : Entries) : Bool :=
  a.length == b.length && a.all fun (k, v) =>
    match s.find? k b with
    | some w => equal v w
    | none => false

/-- Whether two optional contents are both there and equal. -/
def bothEqual {α : Type} (equal : α → α → Bool) : Option α → Option α → Bool
  | some a, some b => equal a b
  | _, _ => false

/-- Whether two values are equal, looking so deep. -/
def equalWithin (s : Store) : Nat → Value → Value → Bool
  | 0, v, w => v == w
  | fuel + 1, v, w =>
    if v == w then true
    else match s.asObject? v, s.asObject? w with
      | some (_, a), some (_, b) =>
        if a.typeName = b.typeName then
          match s.compared? a, s.compared? b with
          | some x, some y =>
            equalItems (s.equalWithin fuel) x.values y.values &&
              (x.lists.zip y.lists).all (fun (p, q) =>
                bothEqual (equalItems (s.equalWithin fuel)) p q) &&
              (x.maps.zip y.maps).all fun (p, q) =>
                bothEqual (s.equalEntries (s.equalWithin fuel)) p q
          | _, _ => false
        else false
      | _, _ => v.samePlain w

def equal (s : Store) (v w : Value) : Bool := s.equalWithin (s.objects.size + 1) v w

end Store

namespace Order

/-- Whether one list comes before another: the first unequal items decide, or else the lengths. -/
def lessItems (equal : Value → Value → Bool) (less : Value → Value → Except Fault Bool) :
    List Value → List Value → Except Fault Bool
  | [], [] => .ok false
  | [], _ :: _ => .ok true
  | _ :: _, [] => .ok false
  | v :: rest, w :: others => if equal v w then lessItems equal less rest others else less v w

/-- Whether a value comes before another, looking so deep. -/
def lessWithin (s : Store) : Nat → Value → Value → Except Fault Bool
  | 0, _, _ => .error .endless
  | fuel + 1, v, w =>
    match v, w with
    | .str a, .str b => .ok (decide (a < b))
    | .moment a, .moment b =>
      match a.less? b with
      | some less => .ok less
      | none => .error .wrongType
    | v, w =>
      match s.asObject? v, s.asObject? w with
      | some (_, .list a), some (_, .list b) => lessItems s.equal (lessWithin s fuel) a b
      | some (_, .tuple a), some (_, .tuple b) => lessItems s.equal (lessWithin s fuel) a b
      | _, _ =>
        match v.number?, w.number? with
        | some m, some n => .ok (lessNumber m n)
        | _, _ => .error .wrongType

def less (s : Store) (v w : Value) : Except Fault Bool := lessWithin s (s.objects.size + 1) v w

/-- A value inserted into a sorted list, after those that it does not come before. -/
def insert (s : Store) (v : Value) : List Value → Except Fault (List Value)
  | [] => .ok [v]
  | w :: rest => do
    let first ← less s v w
    if first then return v :: w :: rest
    else do
      let rest ← insert s v rest
      return w :: rest

/-- The values in order; equal ones keep their places. -/
def sort (s : Store) (values : List Value) : Except Fault (List Value) :=
  values.foldlM (fun sorted v => insert s v sorted) []

/-- The value that comes before all others, the first of several. -/
def least (s : Store) : Value → List Value → Except Fault Value
  | best, [] => .ok best
  | best, v :: rest => do
    let smaller ← less s v best
    least s (if smaller then v else best) rest

/-- The value that comes after all others, the first of several. -/
def greatest (s : Store) : Value → List Value → Except Fault Value
  | best, [] => .ok best
  | best, v :: rest => do
    let greater ← less s best v
    greatest s (if greater then v else best) rest

end Order

end TemplateRecovery
