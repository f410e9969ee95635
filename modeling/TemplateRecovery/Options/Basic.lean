import TemplateRecovery.Assoc
import TemplateRecovery.Store.View

/-!
# Options

What a user can choose: extra globals for the program, the paths at which the registration surface is
found, and the step of indentation.

* `Options.field?` reads the accepted spellings of the option names.
* `Options.ofMapping` checks a mapping entry by entry; the first bad entry decides the fault.
* `Options.merge` applies overrides; paths are added to those that are there.
-/

namespace TemplateRecovery

/-- The options of a run. -/
structure Options where
  context : List (String × Value) := []
  requirePaths : List String := []
  globalPaths : List String := []
  indent : Nat := 4

instance : Inhabited Options := ⟨{}⟩

namespace Options

/-- The options that can be given. -/
inductive Field where
  | context
  | requirePaths
  | globalPaths
  | indent
  deriving DecidableEq, Inhabited, Repr

/-- The accepted spellings of the option names. -/
def spellings : List (String × Field) := [
  ("context", .context),
  ("require_ember_paths", .requirePaths),
  ("requireEmberPaths", .requirePaths),
  ("requireEmberPathAliases", .requirePaths),
  ("global_paths", .globalPaths),
  ("globalPaths", .globalPaths),
  ("globalPathAliases", .globalPaths),
  ("indent", .indent)]

def field? (spelling : String) : Option Field := spellings.lookup spelling

def refuse {α : Type} (problem : OptionProblem) (path : List String) : Except Fault α :=
  .error (Fault.ofOption problem path)

/-- The entries of a mapping under the texts of their keys, in order. -/
def namedEntries (s : Store) :
    Entries → List (String × Value) → Except Fault (List (String × Value))
  | [], done => .ok done
  | (k, v) :: rest, done => do
    let name ← s.text k
    namedEntries s rest (Assoc.set name v done)

/-- A context: null or a mapping, whose keys become texts. -/
def contextOf (s : Store) (path : List String) (v : Value) :
    Except Fault (List (String × Value)) :=
  match v, s.entries? v with
  | .null, _ => .ok []
  | _, some entries => namedEntries s entries []
  | v, none => refuse (.notMapping (s.view v)) path

/-- The strings of an array, the first item counted as `i`; anything else in it is refused by its
index. -/
def stringItems (s : Store) (path : List String) : Nat → List Value → Except Fault (List String)
  | _, [] => .ok []
  | i, .str text :: rest => do
    let items ← stringItems s path (i + 1) rest
    return text :: items
  | i, v :: _ => refuse (.notText (s.view v)) (path ++ [toString i])

/-- Paths: null, one string, or an array of strings. -/
def pathsOf (s : Store) (path : List String) (v : Value) : Except Fault (List String) :=
  match v, s.array? v with
  | .null, _ => .ok []
  | .str text, _ => .ok [text]
  | _, some items => stringItems s path 0 items
  | v, none => refuse (.notPathList (s.view v)) path

/-- A step of indentation: a whole number that is not negative. -/
def indentOf (s : Store) (path : List String) : Value → Except Fault Nat
  | .int n => if n < 0 then refuse (.negative n) path else .ok n.toNat
  | v => refuse (.notInt (s.view v)) path

/-- The options with one of them set to a checked value. -/
def set (s : Store) (path : List String) (o : Options) : Field → Value → Except Fault Options
  | .context, v => do
    let context ← contextOf s path v
    return { o with context := context }
  | .requirePaths, v => do
    let paths ← pathsOf s path v
    return { o with requirePaths := paths }
  | .globalPaths, v => do
    let paths ← pathsOf s path v
    return { o with globalPaths := paths }
  | .indent, v => do
    let n ← indentOf s path v
    return { o with indent := n }

/-- The options with the entries of a mapping set in order; no option may be given twice. -/
def ofEntries (s : Store) : Entries → List Field → Options → Except Fault Options
  | [], _, o => .ok o
  | (key, v) :: rest, given, o => do
    let name ← s.text key
    match field? name with
    | none => refuse (.unexpectedKey (s.view key)) [name]
    | some field =>
      if field ∈ given then refuse (.givenTwice (s.view key)) [name]
      else
        let o ← o.set s [name] field v
        ofEntries s rest (field :: given) o

/-- The options that a value gives: null gives the defaults. -/
def ofMapping (s : Store) (v : Value) : Except Fault Options :=
  match v, s.entries? v with
  | .null, _ => .ok {}
  | _, some entries => ofEntries s entries [] {}
  | v, none => refuse (.notMapping (s.view v)) []

/-- The options with overrides applied: a step replaces the step, paths are added to the paths. -/
def merge (o : Options) (indent : Option Nat) (globalPaths requirePaths : List String) : Options :=
  { o with
    indent := indent.getD o.indent
    globalPaths := o.globalPaths ++ globalPaths
    requirePaths := o.requirePaths ++ requirePaths }

end Options

end TemplateRecovery
