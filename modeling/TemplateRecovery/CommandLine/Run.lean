import TemplateRecovery.CommandLine.Parse
import TemplateRecovery.CommandLine.Path
import TemplateRecovery.Options.File
import TemplateRecovery.Registration
import TemplateRecovery.Report

/-!
# Running a command

A command reads its source and its options, recovers the template and prints it. A reported fault is
printed as a message and ends the command with the exit code two; any other fault is passed on.
-/

namespace TemplateRecovery

namespace CommandLine

/-- What a command reads: its source and its option file. -/
structure Inputs where
  source : Except FileProblem Program
  config : Except FileProblem String

/-- What a command leaves behind: an exit code, or the fault that ended it, and what it printed. -/
structure Outcome where
  exit : Except Fault Nat
  stdout : String
  stderr : String

/-- The step of indentation that a command line sets. -/
def Indent.check : Indent → Except Fault (Option Nat)
  | .unset => .ok none
  | .given n => if n < 0 then .error (.negativeIndent n) else .ok (some n.toNat)
  | .void => .error .wrongType

/-- The options of an invocation: those of the file, with the settings of the command line. -/
def Invocation.options (inv : Invocation) (config : Except FileProblem String) : Act Options := do
  let base ← match inv.settings.config with
    | none => pure {}
    | some "" => pure {}
    | some path => Options.ofFile (Path.normalize path) config
  let indent ← Act.lift inv.settings.indent.check
  return base.merge indent inv.settings.globalPaths inv.settings.requirePaths

def Invocation.program (inv : Invocation) (source : Except FileProblem Program) :
    Except Fault Program :=
  match source with
  | .ok program => .ok program
  | .error .longName => .error (.unreachable .longName (Path.normalize inv.source))
  | .error _ => .error (.sourceNotFound (Path.normalize inv.source))

def Invocation.recover (inv : Invocation) (inputs : Inputs) : Act Recovered := do
  let program ← Act.lift (inv.program inputs.source)
  let o ← inv.options inputs.config
  Registration.recover program o

/-- What a command prints for a recovered template. -/
def Invocation.output (inv : Invocation) (r : Recovered) : String :=
  match inv.command with
  | .render => r.template ++ "\n"
  | .report => Report.write r inv.source

def faultLine (fault : Fault) : String :=
  String.ofList (Text.dropBlanksRight (fault.message.getD "").toList) ++ "\n"

def logText (debug : Bool) (s : Store) : String :=
  if debug then Text.join "" (s.log.toList.map Event.line) else ""

/-- Runs an invocation; the log is printed if it asks for that or if debugging is on anyway. -/
def Invocation.run (inv : Invocation) (inputs : Inputs) (debug : Bool) : Outcome :=
  let debug := debug || inv.settings.debug
  match inv.recover inputs {} with
  | .ok r s => ⟨.ok 0, s.printed ++ inv.output r, logText debug s⟩
  | .error fault s =>
    if fault.isReported then ⟨.ok 2, s.printed, logText debug s ++ faultLine fault⟩
    else ⟨.error fault, s.printed, logText debug s⟩

/-- What a command line that leads to no run prints. -/
def Stop.outcome : Stop → Outcome
  | .help => ⟨.ok 0, "", ""⟩
  | .version => ⟨.ok 0, mainGrammar.program ++ " " ++ toolVersion ++ "\n", ""⟩
  | .refused program message => ⟨.ok 2, "", refusalLine program message⟩

end CommandLine

end TemplateRecovery
