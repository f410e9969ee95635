import TemplateRecovery.Store.Act

/-!
# Raw arguments

In a declarative template an array stands for an expression and everything else for a literal. A
`Raw` argument is a value with its arrays opened as far as they are nested in one another, so that
reading it needs no store.

* `Raw.ofValue` opens the arrays of a value.
* `Raw.view` and `Raw.text` show an argument in messages.
-/

namespace TemplateRecovery

/-- A value with its arrays opened. -/
inductive Raw where
  | atom (v : Value)
  | list (items : List Raw)
  | tuple (items : List Raw)
  deriving Inhabited

namespace Raw

/-- A value with its arrays opened, looking so deep. -/
def ofValueWithin (s : Store) : Nat → Value → Raw
  | 0, v => .atom v
  | fuel + 1, v =>
    match s.asObject? v with
    | some (_, .list items) => .list (items.map (ofValueWithin s fuel))
    | some (_, .tuple items) => .tuple (items.map (ofValueWithin s fuel))
    | _ => .atom v

/-- A value with its arrays opened; no array is nested more deeply than there are objects. -/
def ofValue (s : Store) (v : Value) : Raw := ofValueWithin s (s.objects.size + 1) v

def array? : Raw → Option (List Raw)
  | .atom _ => none
  | .list items => some items
  | .tuple items => some items

mutual

/-- An argument written out, given how values are. -/
def view (value : Value → View) : Raw → View
  | .atom v => value v
  | .list items => .list (views value items)
  | .tuple items => .tuple (views value items)

def views (value : Value → View) : List Raw → List View
  | [] => []
  | r :: rest => r.view value :: views value rest

end

end Raw

/-- How values are shown: written out, and as plain text. -/
structure Display where
  view : Value → View
  text : Value → Except Fault String

/-- How a store shows its values. -/
def Store.display (s : Store) : Display := ⟨s.view, s.text⟩

def Display.raw (d : Display) (r : Raw) : View := r.view d.view

def Display.rawText (d : Display) : Raw → Except Fault String
  | .atom v => d.text v
  | r => Fault.written (d.raw r)

end TemplateRecovery
