/-!
# Scripts

The functions inside a compiled template are given as scripts: lists of steps that call the
recording document or a hook and keep the results in registers.

* `Callee` is what a step calls.
* `Term` is an argument: plain data, a register, a nested call, a function, or a hand-written
  expression, node or morph.
* `Step` calls something and may keep the result in a register.
* `Routine` is a function: its kind fixes its parameters, its steps run in order, and its result is
  evaluated last.
-/

namespace TemplateRecovery

/-- What a step of a script calls. -/
inductive Callee where
  /-- A method of the current document. -/
  | document (method : String)
  /-- A hook, as an attribute of the hook table. -/
  | hook (name : String)
  /-- A hook, as an item of the hook table. -/
  | hookItem (name : String)
  /-- An item of the environment. -/
  | environmentItem (name : String)
  /-- The argument itself. -/
  | value
  /-- A failure of the given kind with the given message. -/
  | raise
  deriving DecidableEq, Inhabited, Repr

/-- The functions a template may hold. -/
inductive RoutineKind where
  /-- Builds the static part: takes a document. -/
  | fragment
  /-- Returns the slots: takes a document, the static part and an unused element. -/
  | slots
  /-- Renders: takes an unused context, an environment and an unused element. -/
  | render
  deriving DecidableEq, Inhabited, Repr

mutual

/-- An argument of a step. -/
inductive Term where
  | null
  | bool (b : Bool)
  | int (n : Int)
  /-- A number with a fraction, as it is written. -/
  | float (text : String)
  | str (s : String)
  | list (items : List Term)
  | tuple (items : List Term)
  | map (entries : List (Term × Term))
  | object (fields : List (String × Term))
  /-- The value of a register. -/
  | register (name : String)
  /-- A field of the current document. -/
  | documentField (name : String)
  /-- The result of a call. -/
  | call (callee : Callee) (args : List Term)
  | routine (r : Routine)
  | literal (t : Term)
  | path (t : Term)
  | concat (parts : List Term)
  | subexpr (name : Term) (params : List Term) (hash : List (Term × Term))
  | fragment (children : List Term)
  | element (tag ns : Term) (attributes : List (Term × Term))
      (bound modifiers children : List Term)
  | text (t : Term)
  | comment (t : Term)
  | placeholder (t : Term)
  | inline (name : Term) (params : List Term) (hash : List (Term × Term))
  | modifier (name : Term) (params : List Term) (hash : List (Term × Term))
  | attribute (key value : Term)
  | content (t : Term)
  | block (name : Term) (params : List Term) (hash : List (Term × Term))
      (primary alternate : Term)

/-- A call whose result may be kept in a register. -/
inductive Step where
  | mk (target : Option String) (callee : Callee) (args : List Term)

/-- A function given as a script. -/
inductive Routine where
  | mk (kind : RoutineKind) (steps : List Step) (result : Term)

end

instance : Inhabited Term := ⟨.null⟩

/-- The register that receives the result. -/
def Step.target : Step → Option String
  | .mk target _ _ => target

def Step.callee : Step → Callee
  | .mk _ callee _ => callee

def Step.args : Step → List Term
  | .mk _ _ args => args

def Routine.kind : Routine → RoutineKind
  | .mk kind _ _ => kind

def Routine.steps : Routine → List Step
  | .mk _ steps _ => steps

def Routine.result : Routine → Term
  | .mk _ _ result => result

end TemplateRecovery
