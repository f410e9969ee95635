/-!
# Ordered associations

A list of pairs kept in the order in which its keys were first inserted. Two keys are compared by a
given test, so that keys of different spelling can be one key.

* `Assoc.insert` replaces the value of a key that is there and appends a new key at the end; a key
  keeps its first spelling and its position.
* `Assoc.find?` is the value of a key.
* `Assoc.erase` removes a key.
-/

namespace TemplateRecovery

namespace Assoc

variable {κ ν : Type}

/-- Binds a key: in its place if it is there, at the end otherwise. -/
def insert (same : κ → κ → Bool) (k : κ) (v : ν) : List (κ × ν) → List (κ × ν)
  | [] => [(k, v)]
  | (k', v') :: rest =>
    if same k' k then (k', v) :: rest else (k', v') :: insert same k v rest

def find? (same : κ → κ → Bool) (k : κ) : List (κ × ν) → Option ν
  | [] => none
  | (k', v) :: rest => if same k' k then some v else find? same k rest

def erase (same : κ → κ → Bool) (k : κ) (entries : List (κ × ν)) : List (κ × ν) :=
  entries.filter fun e => !same e.1 k

/-- The association that arises by inserting pairs in order. -/
def ofPairs (same : κ → κ → Bool) (pairs : List (κ × ν)) : List (κ × ν) :=
  pairs.foldl (fun entries (k, v) => insert same k v entries) []

/-- Inserting at names compared by equality. -/
abbrev set (name : String) (v : ν) (entries : List (String × ν)) : List (String × ν) :=
  insert (· == ·) name v entries

end Assoc

end TemplateRecovery
