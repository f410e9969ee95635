import TemplateRecovery.CommandLine.Word
import TemplateRecovery.Number.Integer
import TemplateRecovery.Text.Quoted

/-!
# Reading a command line

A command line names a command and a source and may set options. `CommandLine.parse` reads it, or
tells why it leads to no run. Words that nothing understands are collected and refused last.
-/

namespace TemplateRecovery

namespace CommandLine

/-- The commands. -/
inductive Command where
  /-- Prints the recovered template. -/
  | render
  /-- Prints a report. -/
  | report
  deriving DecidableEq, Inhabited, Repr

def Command.name : Command → String
  | .render => "render"
  | .report => "report"

def Command.ofName? (s : String) : Option Command := [Command.render, .report].find? (·.name == s)

/-- The step of indentation that a command line sets. -/
inductive Indent where
  | unset
  | given (n : Int)
  /-- The separator was given, which is no step. -/
  | void
  deriving DecidableEq, Inhabited, Repr

/-- What the options of a command set. -/
structure Settings where
  config : Option String := none
  indent : Indent := .unset
  globalPaths : List String := []
  requirePaths : List String := []
  debug : Bool := false
  deriving DecidableEq, Inhabited, Repr

/-- A command line that leads to a run. -/
structure Invocation where
  command : Command
  source : String
  settings : Settings
  deriving DecidableEq, Inhabited, Repr

def refuseFlag {α : Type} (g : Grammar) (flag : Flag) (message : String) : Except Stop α :=
  .error (.refused g.program ("argument " ++ flag.label ++ ": " ++ message))

/-- Takes apart an option with a value written after it. Options of one letter that take no value
may follow each other after one dash; the last of them is given with its value. -/
def expand (g : Grammar) : Nat → List Flag → Flag → String → Option String →
    Except Stop (List Flag × Flag × Option String)
  | 0, before, flag, _, value => .ok (before, flag, value)
  | fuel + 1, before, flag, name, value =>
    match value with
    | none => .ok (before, flag, none)
    | some v =>
      if flag.takesValue then .ok (before, flag, some v)
      else
        match v.toList with
        | c :: rest =>
          let next := String.ofList ['-', c]
          if (name.toList.drop 1).head? = some '-' then
            refuseFlag g flag ("ignored explicit argument " ++ Text.quote v)
          else
            match g.options.lookup next with
            | some f =>
              let value := if rest.isEmpty then none else some (String.ofList rest)
              expand g fuel (before ++ [flag]) f next value
            | none => refuseFlag g flag ("ignored explicit argument " ++ Text.quote v)
        | [] => refuseFlag g flag ("ignored explicit argument " ++ Text.quote v)

def applyFlag (s : Settings) : Flag → Except Stop Settings
  | .help => .error .help
  | .version => .error .version
  | .debug => .ok { s with debug := true }
  | _ => .ok s

/-- What an option with a value does. The separator is no value: it takes back what was set, and paths
stay as they are. -/
def applyValue (g : Grammar) (s : Settings) (flag : Flag) (v : String) : Except Stop Settings :=
  match flag with
  | .config => .ok { s with config := if v = "--" then none else some v }
  | .globalPath => .ok (if v = "--" then s else { s with globalPaths := s.globalPaths ++ [v] })
  | .requirePath => .ok (if v = "--" then s else { s with requirePaths := s.requirePaths ++ [v] })
  | .indent =>
    if v = "--" then .ok { s with indent := .void }
    else match Integer.ofText? v with
      | some n => .ok { s with indent := .given n }
      | none => refuseFlag g .indent ("invalid int value: " ++ Text.quote v)
  | flag => applyFlag s flag

/-- Reads an option and its value, which may be the next word; gives the words after it. -/
def readOption (g : Grammar) (s : Settings) (flag : Flag) (name : String) (value : Option String)
    (rest : List (String × Word)) : Except Stop (Settings × List (String × Word)) := do
  let (before, last, value) ← expand g (name.length + (value.getD "").length + 1) [] flag name value
  if last.takesValue then
    match value, rest with
    | some v, rest => do
      let s ← before.foldlM applyFlag s
      let s ← applyValue g s last v
      return (s, rest)
    | none, (v, .plain) :: rest => do
      let s ← before.foldlM applyFlag s
      let s ← applyValue g s last v
      return (s, rest)
    | none, _ => refuseFlag g last "expected one argument"
  else
    let s ← (before ++ [last]).foldlM applyFlag s
    return (s, rest)

/-- The source among words without options, and the words that are left: a separator on either side
of it is dropped. -/
def takeSource : List (String × Word) → Option (String × List String)
  | (_, .separator) :: (s, _) :: rest => some (s, rest.map (·.1))
  | [(_, .separator)] => none
  | (s, _) :: (_, .separator) :: rest => some (s, rest.map (·.1))
  | (s, _) :: rest => some (s, rest.map (·.1))
  | [] => none

/-- Reads the words of a command: its source, its settings, and the words that nothing
understands. -/
def readCommand (g : Grammar) : Nat → Option String → List String → Settings →
    List (String × Word) → Except Stop (String × Settings × List String)
  | 0, _, _, _, _ => .error (.refused g.program "")
  | fuel + 1, source, extras, s, words =>
    if words.any fun (_, w) => match w with | .option _ _ _ => true | _ => false then
      match words with
      | (_, .option (some flag) name value) :: rest => do
        let (s, rest) ← readOption g s flag name value rest
        readCommand g fuel source extras s rest
      | (word, .option none _ _) :: rest => readCommand g fuel source (extras ++ [word]) s rest
      | (word, _) :: rest =>
        match source with
        | none => readCommand g fuel (some word) extras s rest
        | some _ => readCommand g fuel source (extras ++ [word]) s rest
      | [] => .error (.refused g.program "")
    else
      match source, takeSource words with
      | some found, _ => .ok (found, s, extras ++ words.map (·.1))
      | none, some (found, more) => .ok (found, s, extras ++ more)
      | none, none => .error (.refused g.program "the following arguments are required: source")

def parseCommand (extras : List String) (name : String) (args : List String) :
    Except Stop Invocation :=
  match Command.ofName? name with
  | none =>
    .error (.refused mainGrammar.program ("argument cmd: invalid choice: " ++ Text.quote name ++
      " (choose from 'render', 'report')"))
  | some command => do
    let g := commandGrammar command.name
    let words ← classifyAll g args
    let (source, settings, more) ← readCommand g (words.length + 1) none [] {} words
    match extras ++ more with
    | [] => return ⟨command, source, settings⟩
    | extras =>
      .error (.refused mainGrammar.program
        ("unrecognized arguments: " ++ Text.join " " extras))

def readMain : List String → List (String × Word) → Except Stop Invocation
  | extras, (_, .option (some flag) name value) :: rest => do
    let _ ← readOption mainGrammar {} flag name value rest
    readMain extras rest
  | extras, (word, .option none _ _) :: rest => readMain (extras ++ [word]) rest
  | extras, (word, .plain) :: rest => parseCommand extras word (rest.map (·.1))
  | extras, (word, .separator) :: next :: rest =>
    parseCommand extras word ((next :: rest).map (·.1))
  | _, _ =>
    .error (.refused mainGrammar.program "the following arguments are required: cmd")

def parse (args : List String) : Except Stop Invocation := do
  let words ← classifyAll mainGrammar args
  readMain [] words

end CommandLine

end TemplateRecovery
