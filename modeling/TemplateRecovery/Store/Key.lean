import TemplateRecovery.Assoc
import TemplateRecovery.Store.Basic

/-!
# Keys of mappings

Only values that cannot change may be keys. Numbers of different kinds are one key when they are
equal, and truth values count as one and zero; a number that is none is one key with itself. Times
in zones are one key when they are one instant. Tuples are compared item by item, expressions by what
they hold, and every other object by its identity.

* `Store.isKey` tells which values may be keys.
* `Store.sameKey` tells when two keys are one.
* `Store.find?` and `Store.insert` read and change the entries of a mapping.

What a tuple or an expression holds is older than itself, so the number of objects bounds how deep
the two have to look.
-/

namespace TemplateRecovery

namespace Store

/-- Whether a value may be a key, looking so deep. -/
def isKeyWithin (s : Store) : Nat → Value → Bool
  | 0, _ => false
  | fuel + 1, v =>
    match v with
    | .object id =>
      match s.object? id with
      | some (.tuple items) => items.all (s.isKeyWithin fuel)
      | some (.expression (.literal v)) => s.isKeyWithin fuel v
      | some (.expression (.path p)) => s.isKeyWithin fuel p
      | some (.node _ _) => true
      | some (.slot _ _) => true
      | some (.function _ _) => true
      | some (.document _) => true
      | some .hooks => true
      | _ => false
    | .foreign typeName _ => typeName != "set" && typeName != "bytearray"
    | _ => true

def isKey (s : Store) (v : Value) : Bool := s.isKeyWithin (s.objects.size + 1) v

/-- Whether two values are one key, looking so deep. -/
def sameWithin (s : Store) : Nat → Value → Value → Bool
  | 0, v, w => v == w
  | fuel + 1, v, w =>
    if v == w then true
    else match s.asObject? v, s.asObject? w with
      | some (_, .tuple items), some (_, .tuple others) =>
        items.length == others.length &&
          (items.zip others).all fun (a, b) => s.sameWithin fuel a b
      | some (_, .expression (.literal a)), some (_, .expression (.literal b)) =>
        s.sameWithin fuel a b
      | some (_, .expression (.path a)), some (_, .expression (.path b)) => s.sameWithin fuel a b
      | _, _ => v.samePlain w

def sameKey (s : Store) (v w : Value) : Bool := s.sameWithin (s.objects.size + 1) v w

def find? (s : Store) (key : Value) (entries : Entries) : Option Value :=
  Assoc.find? s.sameKey key entries

/-- The entries with a key bound; a key that is there keeps its place. -/
def insert (s : Store) (key v : Value) (entries : Entries) : Entries :=
  Assoc.insert s.sameKey key v entries

def erase (s : Store) (key : Value) (entries : Entries) : Entries :=
  Assoc.erase s.sameKey key entries

def findName? (s : Store) (name : String) (entries : Entries) : Option Value :=
  s.find? (.str name) entries

end Store

end TemplateRecovery
