import CallByValue.Interpreter
import CallByValue.Text.Terminal
/-!
# The program

Connects the interpreter to the command line, the file system and the terminal.
-/

namespace CallByValue

/-- What a file holds, or nothing if it cannot be read. -/
def readFile? (path : String) : IO (Option String) := do
  try
    let text ← IO.FS.readFile path
    return some text
  catch _ => return none

def exitCode : Option Fault → UInt32
  | none => 0
  | some (.exit code) => UInt32.ofNat code.toNat
  | some (.exitWith []) => 0
  | some _ => 1

def flush (shell : Shell) : IO Shell := do
  let reporter := shell.session.reporter
  IO.print reporter.output
  (← IO.getStdout).flush
  return { shell with session := { shell.session with reporter := { reporter with output := "" } } }

/-- Reads lines until the shell stops. -/
partial def converse (shell : Shell) : IO Transcript := do
  IO.print shell.prompt
  (← IO.getStdout).flush
  let line ← (← IO.getStdin).getLine
  let text := if line.isEmpty then "EOF" else String.ofList (line.toList.takeWhile (· ≠ '\n'))
  match Shell.feed text shell with
  | .error fault shell => return Interpreter.conclude shell.session.reporter (some fault)
  | .ok true shell => converse (← flush shell)
  | .ok false shell => return Interpreter.conclude shell.session.reporter none

def runProgram (style : Text.Style) (arguments : List String) : IO Transcript := do
  match CommandLine.parse arguments with
  | .error stop => return Interpreter.stopTranscript stop
  | .ok settings =>
    match settings.job with
    | .expression expr => return Interpreter.runExpression style settings expr
    | .file path => return Interpreter.runFile style settings path (← readFile? path)
    | .shell => converse (← flush (Interpreter.startShell style settings))

end CallByValue

def main (arguments : List String) : IO UInt32 := do
  let transcript ← CallByValue.runProgram .terminal arguments
  IO.print transcript.output
  IO.eprint transcript.errors
  return CallByValue.exitCode transcript.fault
