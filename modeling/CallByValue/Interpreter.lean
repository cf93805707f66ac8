import CallByValue.CommandLine
import CallByValue.Shell
/-!
# The interpreter

What the program does with its command line: it evaluates one expression, or a file, or what is
typed in. The whole of it is guarded, so that every fault is reported and leads to an exit. The work
itself is pure; what a file holds, what is typed in and the style of the terminal are handed to it,
and what it prints is returned.
-/

namespace CallByValue

/-- What a run of the program shows: what it printed, what it complained about, and the fault that
ended it, if one did. -/
structure Transcript where
  output : String
  errors : String
  fault : Option Fault

/-- The three things the program can be asked to do. -/
inductive Job where
  | expression (expr : CommandLine.Value String)
  | file (path : String)
  | shell

/-- An expression on the command line takes precedence over a file. -/
def CommandLine.Settings.job (settings : CommandLine.Settings) : Job :=
  match settings.expr, settings.file with
  | some expr, _ => .expression expr
  | none, some path => .file path
  | none, none => .shell

namespace CommandLine.Settings

/-- How many contractions a line may take, if there is a limit. -/
def limit (settings : CommandLine.Settings) : Option Int :=
  match settings.maxSteps with
  | some (.given n) => some n
  | _ => none

/-- A limit that is left blank does no harm until it is looked at. -/
def veto (settings : CommandLine.Settings) : Option Fault :=
  match settings.maxSteps with
  | some .blank => some (.defect .noLimit)
  | _ => none

def reducer (settings : CommandLine.Settings) : Reducer String :=
  .tracing settings.limit settings.veto settings.trace

end CommandLine.Settings

namespace Interpreter

/-- Stands for the file name of an expression given on the command line. -/
def givenExpression : String :=
  "<expr>"

def stopTranscript : CommandLine.Stop → Transcript
  | .help => ⟨CommandLine.helpText, "", some (.exit 0)⟩
  | .usage text => ⟨"", CommandLine.usageError text, some (.exit 2)⟩

/-- Deals with the fault that some work ended in. -/
def conclude (reporter : Reporter) (fault : Option Fault) : Transcript :=
  match fault with
  | none => ⟨reporter.output, "", none⟩
  | some fault =>
    match Reporter.absorb fault reporter with
    | .ok _ reporter => ⟨reporter.output, "", none⟩
    | .error fault reporter => ⟨reporter.output, "", some fault⟩

variable (style : Text.Style)

def runExpression (settings : CommandLine.Settings) (expr : CommandLine.Value String) :
    Transcript :=
  let reporter := Reporter.new style settings.trace
  match expr with
  | .blank => conclude reporter (some (.diagnostic .noExpression))
  | .given expr =>
    let outcome := settings.reducer.run .empty expr
    let reporter :=
      Session.printSteps outcome.notes (reporter.registerLine givenExpression expr 1)
    match outcome.result.bind Query.renderBounded with
    | .ok text => conclude (reporter.print text) none
    | .error fault => conclude reporter (some fault)

def startSession (settings : CommandLine.Settings) (path : String) (interactive : Bool) : Session :=
  let session := Session.new (.new style settings.trace) path interactive settings.limit
  { session with veto := settings.veto }

/-- Evaluates a file, given what it holds or that it cannot be read. -/
def runFile (settings : CommandLine.Settings) (path : String) (contents : Option String) :
    Transcript :=
  match Session.load false contents (startSession style settings path false) with
  | .ok _ session => conclude session.reporter none
  | .error fault session => conclude session.reporter (some fault)

def startShell (settings : CommandLine.Settings) : Shell :=
  let shell := Shell.new (startSession style settings Session.typedIn true)
  { shell with session := { shell.session with
      reporter := shell.session.reporter.print Shell.intro } }

def runShell (settings : CommandLine.Settings) (lines : List String) : Transcript :=
  match Shell.feedAll lines (startShell style settings) with
  | .ok _ shell => conclude shell.session.reporter none
  | .error fault shell => conclude shell.session.reporter (some fault)

/-- The whole program, given what each file holds and what is typed in. -/
def run (arguments : List String) (read : String → Option String) (input : String) : Transcript :=
  match CommandLine.parse arguments with
  | .error stop => stopTranscript stop
  | .ok settings =>
    match settings.job with
    | .expression expr => runExpression style settings expr
    | .file path => runFile style settings path (read path)
    | .shell => runShell style settings (Text.lines input)

end Interpreter

end CallByValue
