import TemplateRecovery.Fault.Problem
import TemplateRecovery.Fault.Shape

/-!
# Faults

A `Fault` is the cause of a failure. Those that a user can be expected to meet are *reported*: the
command line prints their message and nothing else. The others are failures of the code that was
run, or of its data.

* `Fault.message` is the wording; three causes have none.
* `Fault.ofShape` is the fault of a shape that is written out; `Fault.longNumber` takes its place if
  that cannot be done.
* `Fault.isReported` tells the two kinds apart.
-/

namespace TemplateRecovery

/-- The cause of a failure. -/
inductive Fault where
  /-- The artifact is no template. -/
  | artifact (problem : ArtifactProblem)
  /-- The artifact declares a revision that is not supported. -/
  | unsupportedRevision (revision : String)
  /-- A template of an older generation is registered. -/
  | legacyRegistration
  /-- A tagged array starts with an unknown tag, whose text is given. -/
  | unknownTag (kind : TagKind) (tag : View) (text : String)
  /-- Something has the wrong shape. -/
  | shape (cause : ShapeFault)
  /-- There are not as many slots as statements. -/
  | mismatch (statements slots : Nat)
  /-- No template was registered. -/
  | noRegistration
  /-- A second template was registered. -/
  | secondRegistration
  /-- An alias path runs through something that is no container. -/
  | pathConflict (path segment : String)
  /-- An option is refused; the path leads to it. -/
  | options (problem : OptionProblem) (path : List String)
  /-- The source file is not there. -/
  | sourceNotFound (path : String)
  /-- The step of indentation on the command line is negative. -/
  | negativeIndent (n : Int)
  /-- An operation does not apply to values of this type. -/
  | wrongType
  /-- A computation has no end. -/
  | endless
  /-- A number is too large for the operation. -/
  | overflow
  /-- There is no room for what is asked for. -/
  | exhausted
  /-- A value has no attribute of this name. -/
  | noAttribute (typeName name : String)
  /-- A type has no attribute of this name. -/
  | noTypeAttribute (typeName name : String)
  /-- An attribute that belongs to the type of a value cannot be assigned. -/
  | readOnly (typeName name : String)
  /-- An attribute that is computed from a value cannot be assigned. -/
  | notWritable (typeName name : String)
  /-- An attribute that stands for another one cannot be assigned. -/
  | noSetter (typeName name : String)
  /-- The fields of an expression cannot be assigned. -/
  | fixedField (name : String)
  /-- A mapping has no such key. -/
  | noKey (key : View)
  /-- No variable has this name. -/
  | noName (name : String)
  /-- A list has no such position. -/
  | noPosition
  /-- A position is too large for any list. -/
  | wideIndex
  /-- Programs cannot import. -/
  | noImport
  /-- A number has more digits than can be read. -/
  | tooManyDigits (count : Nat)
  /-- A text is no whole number in this base. -/
  | notInteger (base : Nat) (text : String)
  /-- A text is no number. -/
  | notNumber (text : String)
  /-- An item of a sequence of pairs is no pair. -/
  | notPair (index length : Nat)
  /-- Parts make no day or no time. -/
  | notMoment (problem : Moment.Problem)
  /-- A number is no character. -/
  | notCharacter
  /-- A file cannot even be looked for. -/
  | unreachable (problem : FileProblem) (path : String)
  /-- The program itself failed. -/
  | raised (kind message : String)

namespace Fault

/-- The path of an option in front of a message. -/
def pathText : List String → String
  | [] => ""
  | path => Text.join "." path ++ ": "

def message : Fault → Option String
  | .artifact problem => some problem.message
  | .unsupportedRevision revision =>
    some ("Unsupported HTMLBars/Ember version: " ++ revision)
  | .legacyRegistration => some "Ember versions older than 1.10 are not supported."
  | .unknownTag kind _ text => some ("Invalid " ++ kind.name ++ " '" ++ text ++ "'")
  | .shape cause => some cause.message
  | .mismatch statements slots =>
    some s!"Invalid result from buildRenderNodes(): {slots} morphs for {statements} statements"
  | .noRegistration => some "Ember.HTMLBars.template not invoked."
  | .secondRegistration => some "Ember.HTMLBars.template called repeatedly."
  | .pathConflict path segment =>
    some s!"Cannot create path '{path}': '{segment}' is already taken by a non-object"
  | .options problem path => some (pathText path ++ problem.message)
  | .sourceNotFound path => some s!"Source file not found: {path}"
  | .negativeIndent n => some s!"--indent must not be negative, got {n}"
  | .wrongType => none
  | .endless => none
  | .overflow => none
  | .exhausted => some ""
  | .noAttribute typeName name => some s!"'{typeName}' object has no attribute '{name}'"
  | .noTypeAttribute typeName name => some s!"type object '{typeName}' has no attribute '{name}'"
  | .readOnly typeName name => some s!"'{typeName}' object attribute '{name}' is read-only"
  | .notWritable typeName name =>
    some s!"attribute '{name}' of '{typeName}' objects is not writable"
  | .noSetter typeName name => some s!"property '{name}' of '{typeName}' object has no setter"
  | .fixedField name => some ("cannot assign to field " ++ Text.quote name)
  | .noKey key => some key.repr
  | .noName name => some s!"name '{name}' is not defined"
  | .noPosition => some "list assignment index out of range"
  | .wideIndex => some "cannot fit 'int' into an index-sized integer"
  | .noImport => some "__import__ not found"
  | .tooManyDigits count =>
    some (s!"Exceeds the limit ({Text.digitLimit} digits) for integer string conversion: " ++
      s!"value has {count} digits; use sys.set_int_max_str_digits() to increase the limit")
  | .notInteger base text =>
    some (s!"invalid literal for int() with base {base}: " ++ Text.quote text)
  | .notNumber text => some ("could not convert string to float: " ++ Text.quote text)
  | .notPair index length =>
    some s!"dictionary update sequence element #{index} has length {length}; 2 is required"
  | .notMoment problem => some problem.message
  | .notCharacter => some "chr() arg not in range(0x110000)"
  | .unreachable problem path => some (problem.message path)
  | .raised kind message => some (if kind = "KeyError" then Text.quote message else message)

/-- A number has more digits than can be written. -/
def longNumber : Fault :=
  .raised "ValueError" (s!"Exceeds the limit ({Text.digitLimit} digits) for integer string " ++
    "conversion; use sys.set_int_max_str_digits() to increase the limit")

/-- A fault, unless one of the values that its message shows cannot be written. -/
def showing (shown : List View) (fault : Fault) : Fault :=
  if shown.all (·.repr?.isSome) then fault else longNumber

def ofShape (cause : ShapeFault) : Fault := showing cause.shown (.shape cause)

def ofOption (problem : OptionProblem) (path : List String) : Fault :=
  showing problem.shown (.options problem path)

/-- The text of a value, if it can be written. -/
def written (v : View) : Except Fault String :=
  match v.repr? with
  | some text => .ok text
  | none => .error longNumber

/-- Whether a fault is shown to the user as a message. -/
def isReported : Fault → Bool
  | .artifact _ => true
  | .unsupportedRevision _ => true
  | .legacyRegistration => true
  | .unknownTag _ _ _ => true
  | .shape _ => true
  | .mismatch _ _ => true
  | .noRegistration => true
  | .secondRegistration => true
  | .pathConflict _ _ => true
  | .options _ _ => true
  | .sourceNotFound _ => true
  | .negativeIndent _ => true
  | _ => false

end Fault

end TemplateRecovery
