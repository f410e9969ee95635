import TemplateRecovery.Store.Key
import TemplateRecovery.Store.View

/-!
# Actions on a store

An `Act` reads and changes a store and may fail; what it changed before a failure stays changed. A
fault is written out when it arises, so that it can be understood without the store.

* `Act.store` is the store as it is, `Act.view` a value written out.
* `Act.fail` fails with a fault, `Act.lift` runs a computation that needs no store.
* `Act.new` makes a fresh object, `Act.modify` changes one.
-/

namespace TemplateRecovery

/-- A computation on a store that may fail. -/
abbrev Act := EStateM Fault Store

namespace Act

def fail {α : Type} (fault : Fault) : Act α := fun s => .error fault s

def failShape {α : Type} (cause : View → ShapeFault) (v : Value) : Act α := fun s =>
  .error (.ofShape (cause (s.view v))) s

/-- Runs a computation that needs no store. -/
def lift {α : Type} : Except Fault α → Act α
  | .ok a => pure a
  | .error fault => fail fault

def store : Act Store := fun s => .ok s s

def view (v : Value) : Act View := fun s => .ok (s.view v) s

def text (v : Value) : Act String := do
  let s ← store
  lift (s.text v)

def note (e : Event) : Act Unit := fun s => .ok () { s with log := s.log.push e }

def print (text : String) : Act Unit := fun s => .ok () { s with printed := s.printed ++ text }

def new (o : Object) : Act Value := fun s =>
  .ok (.object ⟨s.objects.size⟩) { s with objects := s.objects.push o }

/-- A double, where each number that is none is a fresh one. -/
def newFloat : Binary64 → Act Value
  | .nan => fun s => .ok (.nan s.tag) { s with tag := s.tag + 1 }
  | x => return .float x

def modify (id : ObjectId) (f : Object → Object) : Act Unit := fun s =>
  .ok () { s with objects := s.objects.modify id.index f }

/-- Fails because a value has no attribute of this name. -/
def noAttribute {α : Type} (v : Value) (name : String) : Act α := fun s =>
  match v with
  | .typeObject typeName => .error (.noTypeAttribute typeName name) s
  | .registrar => .error (.noAttribute "function" name) s
  | v => .error (.noAttribute (View.qualified (s.typeName v)) name) s

def noKey {α : Type} (key : Value) : Act α := fun s => .error (.noKey (s.view key)) s

/-- Runs an action and then another, also when the first one fails. -/
def always {α : Type} (x : Act α) (after : Act Unit) : Act α := fun s =>
  match x s with
  | .ok a s' =>
    match after s' with
    | .ok _ s'' => .ok a s''
    | .error fault s'' => .error fault s''
  | .error fault s' =>
    match after s' with
    | .ok _ s'' => .error fault s''
    | .error _ s'' => .error fault s''

end Act

end TemplateRecovery
