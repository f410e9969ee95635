import TemplateRecovery.Json.Reader
import TemplateRecovery.Program.Basic
import TemplateRecovery.Script.Reader
import TemplateRecovery.Text.Split

/-!
# The written form of programs

A program is written as a JSON array of statements. A statement is an array that starts with its
name; a chain is an object that tells where to start and which attributes to follow.
-/

namespace TemplateRecovery

namespace Program

/-- The segments of a dotted path; the empty path has none. -/
def segments (path : String) : List String := if path = "" then [] else Text.splitAt '.' path

def Chain.ofJson? (j : Json) : Option Chain :=
  let path := segments (((j.member? "path").bind Json.str?).getD "")
  match j.member? "require", path with
  | some arg, path => (Term.ofJson? arg).map (.require · path)
  | none, name :: rest => some (.global name rest)
  | none, [] => none

/-- An assignment to a global or to an attribute. -/
def assignment? (target : String) (v : Term) : Option Statement :=
  match segments target with
  | [] => none
  | [name] => some (.setName name v)
  | name :: path => do
    let attr ← path.getLast?
    return .setAttribute name path.dropLast attr v

def Statement.ofJson? : Json → Option Statement
  | .arr [.str "register", chain, v] => do
    return .register (← Chain.ofJson? chain) (← Term.ofJson? v)
  | .arr [.str "register_name", chain, .str name] => do
    return .registerName (← Chain.ofJson? chain) name
  | .arr [.str "export", chain, v] => do
    return .exportTemplate (← Chain.ofJson? chain) (← Term.ofJson? v)
  | .arr [.str "legacy", chain, v] => do
    return .legacy (← Chain.ofJson? chain) (← Term.ofJson? v)
  | .arr [.str "read", chain] => do return .read (← Chain.ofJson? chain)
  | .arr [.str "alias", .str name, chain] => do return .alias name (← Chain.ofJson? chain)
  | .arr [.str "set", .str target, v] => do assignment? target (← Term.ofJson? v)
  | .arr [.str "add", .str name, v] => do return .add name (← Term.ofJson? v)
  | .arr [.str "del", .str name] => some (.delete name)
  | .arr [.str "append", .str name, v] => do return .append name (← Term.ofJson? v)
  | .arr [.str "setitem", .str name, k, v] => do
    return .setItem name (← Term.ofJson? k) (← Term.ofJson? v)
  | .arr [.str "import", .str name] => some (.importModule name)
  | .arr [.str "raise", .str kind, .str message] => some (.raise kind message)
  | _ => none

def ofJson? (j : Json) : Option Program := do
  let items ← j.arr?
  items.mapM Statement.ofJson?

end Program

/-- The program that a source holds. A source that is not written as a program has no statements, so
it registers nothing. -/
def Program.ofSource (source : String) : Program :=
  ((Json.read? source).bind Program.ofJson?).getD []

end TemplateRecovery
