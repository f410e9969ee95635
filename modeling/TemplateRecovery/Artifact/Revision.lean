import TemplateRecovery.Artifact.Member

/-!
# Revisions

A template names the version of its compiler by a marker followed by the digits of the major
version. The first marker that is followed by a digit decides.

* `Revision.majorDigits?` is the run of digits after that marker.
* `Revision.major?` is its value.
* `Revision.Format` is how templates of a major version are encoded.
-/

namespace TemplateRecovery

namespace Revision

/-- What stands in front of a version. -/
def marker : List Char := "Ember@".toList

/-- What follows a marker at the front of a text. -/
def afterMarker? (cs : List Char) : Option (List Char) :=
  if marker.isPrefixOf cs then some (cs.drop marker.length) else none

/-- The digits directly after a marker at the front of a text, if there are any. -/
def digitsHere? (cs : List Char) : Option (List Char) := do
  let rest ← afterMarker? cs
  let digits := Text.digitRun rest
  if digits.isEmpty then none else some digits

/-- The digits after the first marker that is followed by a digit. -/
def majorDigits? : List Char → Option (List Char)
  | [] => none
  | c :: cs =>
    match digitsHere? (c :: cs) with
    | some digits => some digits
    | none => majorDigits? cs

def isRecognized (revision : String) : Bool := (majorDigits? revision.toList).isSome

def major? (revision : String) : Except Fault (Option Nat) :=
  match majorDigits? revision.toList with
  | none => .ok none
  | some digits =>
    if Text.digitLimit < digits.length then .error (.tooManyDigits digits.length)
    else .ok (some (Text.readNat digits))

/-- How a template is encoded. -/
inductive Format where
  /-- A rendering function calls hooks. -/
  | hooks
  /-- Statements are listed as tagged arrays. -/
  | opcodes
  deriving DecidableEq, Inhabited, Repr

def Format.name : Format → String
  | .hooks => "hooks"
  | .opcodes => "opcodes"

def Format.ofMajor? : Nat → Option Format
  | 1 => some .hooks
  | 2 => some .opcodes
  | _ => none

/-- The revision member of an artifact: its own, or else that of its meta data. -/
def find? (artifact : Value) : Act (Option Value) := do
  let own ← Artifact.member "revision" artifact
  let s ← Act.store
  if s.truthy own then return some own
  else do
    let inner ← Artifact.member "meta" artifact
    let inner ← Artifact.member "revision" inner
    let s ← Act.store
    if s.truthy inner then return some inner else return none

def text? (artifact : Value) : Act (Option String) := do
  let found ← find? artifact
  match found with
  | none => return none
  | some v => do
    let revision ← Act.text v
    return some revision

def formatOf (revision : String) : Except Fault Format := do
  let major ← major? revision
  match major.bind Format.ofMajor? with
  | some format => return format
  | none => .error (.unsupportedRevision revision)

def detect (artifact : Value) : Act (String × Format) := do
  let found ← text? artifact
  match found with
  | none => Act.fail (.artifact .noRevision)
  | some revision =>
    if revision = "" then Act.fail (.artifact .noRevision)
    else do
      let format ← Act.lift (formatOf revision)
      return (revision, format)

end Revision

end TemplateRecovery
