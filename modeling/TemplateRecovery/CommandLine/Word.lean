import TemplateRecovery.Script.Reader
import TemplateRecovery.Text.Digit
import TemplateRecovery.Text.Join
import TemplateRecovery.Text.Split

/-!
# The words of a command line

Before a command line is read, every word of it is classified: an option, the separator after which
there are no more options, or anything else. An option may be written with its value after an equals
sign, or by the beginning of its name if no other option begins so.
-/

namespace TemplateRecovery

namespace CommandLine

/-- What an option does. -/
inductive Flag where
  | help
  | version
  | config
  | indent
  | globalPath
  | requirePath
  | debug
  deriving DecidableEq, Inhabited, Repr

def Flag.takesValue : Flag → Bool
  | .help => false
  | .version => false
  | .debug => false
  | _ => true

def Flag.label : Flag → String
  | .help => "-h/--help"
  | .version => "-v/--version"
  | .config => "--config"
  | .indent => "--indent"
  | .globalPath => "--global-path"
  | .requirePath => "--require-path"
  | .debug => "--debug"

/-- The options that a part of the command line understands, under the name of the program that
complains. -/
structure Grammar where
  program : String
  options : List (String × Flag)

def mainGrammar : Grammar where
  program := "shave"
  options := [("-h", .help), ("--help", .help), ("-v", .version), ("--version", .version)]

def commandGrammar (command : String) : Grammar where
  program := "shave " ++ command
  options := [("-h", .help), ("--help", .help), ("--config", .config), ("--indent", .indent),
    ("--global-path", .globalPath), ("--require-path", .requirePath), ("--debug", .debug)]

/-- Why a command line leads to no run. -/
inductive Stop where
  /-- The help text is asked for. -/
  | help
  /-- The version is asked for. -/
  | version
  /-- The command line is refused. -/
  | refused (program message : String)
  deriving DecidableEq, Inhabited, Repr

/-- The line that explains why a command line is refused. -/
def refusalLine (program message : String) : String := program ++ ": error: " ++ message

/-- A classified word. -/
inductive Word where
  | plain
  | separator
  /-- An option by its full name, with the value written after it; unknown if no option has the
  name. -/
  | option (flag : Option Flag) (name : String) (value : Option String)
  deriving DecidableEq, Inhabited, Repr

/-- The text before and after the first equals sign. -/
def splitEquals (s : String) : String × Option String :=
  let cs := s.toList
  let before := cs.takeWhile (· != '=')
  match cs.dropWhile (· != '=') with
  | [] => (s, none)
  | _ :: after => (String.ofList before, some (String.ofList after))

/-- The options of which a word may be the beginning. -/
def abbreviated (g : Grammar) (s : String) : List (String × Flag × Option String) :=
  match s.toList with
  | '-' :: '-' :: _ =>
    let (start, value) := splitEquals s
    g.options.filterMap fun (name, flag) =>
      if start.toList.isPrefixOf name.toList then some (name, flag, value) else none
  | '-' :: c :: rest =>
    g.options.filterMap fun (name, flag) =>
      if name.toList = ['-', c] then some (name, flag, some (String.ofList rest))
      else if s.toList.isPrefixOf name.toList then some (name, flag, none)
      else none
  | _ => []

/-- The digits of a number after its sign, maybe with a fraction. -/
def isUnsigned (cs : List Char) : Bool :=
  let whole := cs.takeWhile Text.isDigit
  match cs.dropWhile Text.isDigit with
  | [] => !whole.isEmpty
  | '.' :: fraction => !fraction.isEmpty && fraction.all Text.isDigit
  | _ => false

/-- Whether a word is a negative number and not an option; a break may end it. -/
def isNegativeNumber (s : String) : Bool :=
  match s.toList with
  | '-' :: cs => isUnsigned (if cs.getLast? = some '\n' then cs.dropLast else cs)
  | _ => false

/-- The class of a word before the separator. -/
def classify (g : Grammar) (s : String) : Except Stop Word :=
  let (start, value) := splitEquals s
  if s.toList.head? ≠ some '-' then .ok .plain
  else if let some flag := g.options.lookup s then .ok (.option (some flag) s none)
  else if s = "-" then .ok .plain
  else if let (some flag, some _) := (g.options.lookup start, value) then
    .ok (.option (some flag) start value)
  else
    match abbreviated g s with
    | [(name, flag, value)] => .ok (.option (some flag) name value)
    | a :: b :: rest =>
      let names := (a :: b :: rest).map (·.1)
      .error (.refused g.program
        ("ambiguous option: " ++ s ++ " could match " ++ Text.join ", " names))
    | [] =>
      if isNegativeNumber s ∨ ' ' ∈ s.toList then .ok .plain else .ok (.option none s none)

/-- The words of a command line with their classes; after the separator there are no options. -/
def classifyAll (g : Grammar) : List String → Except Stop (List (String × Word))
  | [] => .ok []
  | "--" :: rest => .ok (("--", .separator) :: rest.map (·, .plain))
  | s :: rest => do
    let w ← classify g s
    let words ← classifyAll g rest
    return (s, w) :: words

end CommandLine

end TemplateRecovery
