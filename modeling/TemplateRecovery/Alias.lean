import TemplateRecovery.Attribute.Basic
import TemplateRecovery.Container
import TemplateRecovery.Text.Split

/-!
# Alias paths

`Alias.define` makes a value reachable from a root by a dotted path. Containers along the path are
reused, and segments that hold nothing become new objects. Anything else in the way is a conflict.
-/

namespace TemplateRecovery

namespace Alias

/-- Whether a value gives way to a new object: null, false, zero or the empty string. -/
def isUnset : Value → Bool
  | .null => true
  | .bool b => !b
  | .int n => n == 0
  | .float x => x.isZero
  | .str s => s == ""
  | _ => false

/-- Whether a path can run through a value: a mapping, or an object that cannot be called. -/
def isContainer (s : Store) (v : Value) : Bool := (s.entries? v).isSome || Attribute.isOpen s v

/-- What a segment holds: an entry of a mapping, or an attribute of anything else. -/
def member (container : Value) (segment : String) : Act Value := do
  let s ← Act.store
  match s.entries? container with
  | some entries => return (s.findName? segment entries).getD .null
  | none => do
    let found ← Attribute.find? container segment
    return found.getD .null

/-- Binds a segment: an entry of a mapping, or an attribute of anything else. -/
def setMember (container : Value) (segment : String) (v : Value) : Act Unit := do
  let s ← Act.store
  match s.entries? container with
  | some _ => Container.setItem container (.str segment) v
  | none => Attribute.set container segment v

/-- The container that a segment leads to, made anew if the segment holds nothing. -/
def enter (path : String) (current : Value) (segment : String) : Act Value := do
  let existing ← member current segment
  let s ← Act.store
  if isUnset existing then do
    let fresh ← Act.new (.record [])
    setMember current segment fresh
    return fresh
  else if isContainer s existing then return existing
  else Act.fail (.pathConflict path segment)

/-- Makes a value reachable from a container by the given segments. -/
def defineFrom (path : String) (v : Value) : Value → List String → Act Unit
  | _, [] => return ()
  | current, [segment] => setMember current segment v
  | current, segment :: rest => do
    let next ← enter path current segment
    defineFrom path v next rest

/-- Makes a value reachable from a root by a dotted path; the empty path changes nothing. -/
def define (root v : Value) (path : String) : Act Unit :=
  if path = "" then return ()
  else do
    defineFrom path v root (Text.splitAt '.' path)
    Act.note (.alias path)

/-- Makes a value reachable by a path that may be anything: one that counts as absent changes nothing,
and only a string can be taken apart. -/
def defineAt (root v path : Value) : Act Unit := do
  let s ← Act.store
  match path with
  | .str text => define root v text
  | path => if s.truthy path then Act.noAttribute path "split" else return ()

end Alias

end TemplateRecovery
