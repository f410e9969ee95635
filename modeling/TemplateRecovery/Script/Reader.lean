import TemplateRecovery.Json.Height
import TemplateRecovery.Number.Shortest
import TemplateRecovery.Script.Basic

/-!
# The written form of scripts

Values and functions are written as JSON. Null, truth values, whole numbers, strings and arrays stand
for themselves. An object with a single member whose name starts with a dollar sign stands for
something else: a number with a fraction, a register, a call, a function, or a hand-written
expression, node or morph. Any other object is a mapping whose keys are taken in order.

* `Term.ofJson?` reads a value.
* `Callee.ofName?` reads the name of a call.
* `Routine.ofJson?` reads the body of a function.
-/

namespace TemplateRecovery

/-- What follows a given text at the front of another. -/
def Text.after? (front s : String) : Option String :=
  let fs := front.toList
  let cs := s.toList
  if fs.isPrefixOf cs then some (String.ofList (cs.drop fs.length)) else none

def Callee.ofName? (name : String) : Option Callee :=
  if name = "value" then some .value
  else if name = "raise" then some .raise
  else
    ((Text.after? "dom." name).map .document).or <|
    ((Text.after? "hooks." name).map .hook).or <|
    ((Text.after? "hooks:" name).map .hookItem).or <|
    (Text.after? "env:" name).map .environmentItem

/-- Members in the order of their names. -/
def sortMembers {α : Type} (members : List (String × α)) : List (String × α) :=
  members.mergeSort fun a b => !(b.1 < a.1)

def pair? : Json → Option (Json × Json)
  | .arr [k, j] => some (k, j)
  | _ => none

def itemsOf : Option Json → List Json
  | some (.arr items) => items
  | _ => []

/-- A helper name, its parameters and its named arguments, and what follows them. -/
def helperParts? : Json → Option (Json × List Json × List (Json × Json) × List Json)
  | .arr (name :: rest) => do
    let hash ← (itemsOf rest[1]?).mapM pair?
    some (name, itemsOf rest[0]?, hash, rest.drop 2)
  | _ => none

mutual

/-- The value that a document of bounded height stands for. -/
def Term.read? : Nat → Json → Option Term
  | 0, _ => none
  | fuel + 1, j =>
    match j with
    | .null => some .null
    | .bool b => some (.bool b)
    | .int n => some (.int n)
    | .real x => some (.float x.text)
    | .str s => some (.str s)
    | .arr items => (items.mapM (Term.read? fuel)).map .list
    | .obj [(name, arg)] => Term.readSpecial? fuel name arg
    | .obj members => Term.readMembers? fuel members

/-- The mapping that an object stands for. -/
def Term.readMembers? : Nat → List (String × Json) → Option Term
  | 0, _ => none
  | fuel + 1, members => do
    let entries ← (sortMembers members).mapM fun (k, j) =>
      (Term.read? fuel j).map fun t => (Term.str k, t)
    return .map entries

/-- What an object with a single member stands for. -/
def Term.readSpecial? : Nat → String → Json → Option Term
  | 0, _, _ => none
  | fuel + 1, name, arg =>
    let all (items : List Json) : Option (List Term) := items.mapM (Term.read? fuel)
    let named (pairs : List (String × Json)) : Option (List (String × Term)) :=
      pairs.mapM fun (k, j) => (Term.read? fuel j).map (k, ·)
    let pairs (items : List (Json × Json)) : Option (List (Term × Term)) :=
      items.mapM fun (k, j) => do return (← Term.read? fuel k, ← Term.read? fuel j)
    let helper (make : Term → List Term → List (Term × Term) → Term) : Option Term := do
      let (name, params, hash, _) ← helperParts? arg
      return make (← Term.read? fuel name) (← all params) (← pairs hash)
    match name with
    | "$float" => arg.str?.map .float
    | "$tuple" => do return .tuple (← all (← arg.arr?))
    | "$map" => do
      let entries ← (← arg.arr?).mapM pair?
      return .map (← pairs entries)
    | "$obj" => do return .object (← named (sortMembers (← arg.obj?)))
    | "$ref" => do return .register (← arg.str?)
    | "$dom" => do return .documentField (← arg.str?)
    | "$call" =>
      match arg with
      | .arr (.str name :: args) => do return .call (← Callee.ofName? name) (← all args)
      | _ => none
    | "$build" => (Routine.read? fuel .fragment arg).map .routine
    | "$nodes" => (Routine.read? fuel .slots arg).map .routine
    | "$render" => (Routine.read? fuel .render arg).map .routine
    | "$lit" => (Term.read? fuel arg).map .literal
    | "$path" => (Term.read? fuel arg).map .path
    | "$concat" => do return .concat (← all (← arg.arr?))
    | "$subexpr" => helper .subexpr
    | "$frag" => do return .fragment (← all (← arg.arr?))
    | "$el" => do
      let tag ← Term.read? fuel ((arg.member? "tag").getD .null)
      let ns ← Term.read? fuel ((arg.member? "ns").getD .null)
      let attributes ← (itemsOf (arg.member? "attrs")).mapM pair?
      return .element tag ns (← pairs attributes) (← all (itemsOf (arg.member? "attrMorphs")))
        (← all (itemsOf (arg.member? "elMorphs"))) (← all (itemsOf (arg.member? "children")))
    | "$text" => (Term.read? fuel arg).map .text
    | "$comment" => (Term.read? fuel arg).map .comment
    | "$morph" => (Term.read? fuel arg).map .placeholder
    | "$inline" => helper .inline
    | "$elmorph" => helper .modifier
    | "$attr" =>
      match arg with
      | .arr (key :: rest) => do
        return .attribute (← Term.read? fuel key) (← Term.read? fuel (rest[0]?.getD .null))
      | _ => none
    | "$content" => (Term.read? fuel arg).map .content
    | "$block" => do
      let (name, params, hash, branches) ← helperParts? arg
      return .block (← Term.read? fuel name) (← all params) (← pairs hash)
        (← Term.read? fuel (branches[0]?.getD .null)) (← Term.read? fuel (branches[1]?.getD .null))
    | name => Term.readMembers? fuel [(name, arg)]

def Routine.read? : Nat → RoutineKind → Json → Option Routine
  | 0, _, _ => none
  | fuel + 1, kind, body => do
    let steps ← (itemsOf (body.member? "steps")).mapM (Step.read? fuel)
    let result ← Term.read? fuel ((body.member? "ret").getD .null)
    return .mk kind steps result

/-- A step: the register for its result, what it calls, and its arguments. -/
def Step.read? : Nat → Json → Option Step
  | 0, _ => none
  | fuel + 1, j =>
    match j with
    | .arr (target :: .str name :: args) => do
      return .mk target.str? (← Callee.ofName? name) (← args.mapM (Term.read? fuel))
    | _ => none

end

/-- Each level of a document is read in at most four steps. -/
def readFuel (j : Json) : Nat := 4 * j.height + 4

def Term.ofJson? (j : Json) : Option Term := Term.read? (readFuel j) j

def Routine.ofJson? (kind : RoutineKind) (j : Json) : Option Routine :=
  Routine.read? (readFuel j) kind j

end TemplateRecovery
