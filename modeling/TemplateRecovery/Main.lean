import TemplateRecovery.CommandLine.Run
import TemplateRecovery.Program.Reader

/-!
# The command

Reads the command line, the files it names and the environment, and prints what the command leaves
behind.
-/

namespace TemplateRecovery

namespace CommandLine

/-- The problem behind a failure to read a file. -/
def problemOf : IO.Error → FileProblem
  | .resourceExhausted _ 21 _ => .directory
  | .inappropriateType _ 21 _ => .directory
  | .inappropriateType _ 20 _ => .notDirectory
  | _ => .missing

def readText (path : String) : IO (Except FileProblem String) := do
  try
    let text ← IO.FS.readFile (Path.normalize path)
    return .ok text
  catch e => return .error (problemOf e)

/-- The program of a source; a dash stands for the standard input. -/
def readSource (source : String) : IO (Except FileProblem Program) := do
  if source = "-" then
    let stdin ← IO.getStdin
    let text ← stdin.readToEnd
    return .ok (Program.ofSource text)
  else
    let text ← readText source
    return text.map Program.ofSource

/-- Prints what a command leaves behind and gives its exit code. -/
def finish (o : Outcome) : IO UInt32 := do
  IO.print o.stdout
  IO.eprint o.stderr
  match o.exit with
  | .ok code => return code.toUInt32
  | .error fault =>
    IO.eprintln (fault.message.getD "")
    return 1

end CommandLine

end TemplateRecovery

open TemplateRecovery CommandLine in
def main (args : List String) : IO UInt32 := do
  match parse args with
  | .error stop => finish stop.outcome
  | .ok inv =>
    let source ← readSource inv.source
    let config ← match inv.settings.config with
      | none => pure (.error .missing)
      | some path => readText path
    let debug ← IO.getEnv "SHAVE_DEBUG"
    finish (inv.run ⟨source, config⟩ ((debug.getD "") != ""))
