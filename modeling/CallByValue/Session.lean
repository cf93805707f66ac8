import CallByValue.Reduction.Evaluator
import CallByValue.Reporter
import CallByValue.Script
import CallByValue.Text.Lines
/-!
# Sessions

A session evaluates expressions one after another. A definition is stored once its term is evaluated
and written out, so a line that fails leaves the definitions and the results as they were.
Redefining a name is allowed, with a warning.

A session either reads its expressions from a file or is given them one at a time. The file name
that stands for the second kind cannot be used for the first.
-/

namespace CallByValue

structure Session where
  reporter : Reporter
  path : String
  /-- How many contractions a line may take, if there is a limit. -/
  limit : Option Int
  /-- What ends every evaluation that comes to a contraction, if anything does. -/
  veto : Option Fault
  definitions : Definitions
  /-- The results that were not taken yet, in order. -/
  results : Array String

namespace Session

/-- Stands for the file name where lines are typed in. -/
def typedIn : String :=
  "<in>"

/-- Work that can change a session and can fail. -/
abbrev Action (α : Type) := EStateM Fault Session α

/-- A session that has done nothing yet. Where lines are typed in, no error is fatal. -/
def new (reporter : Reporter) (path : String) (interactive : Bool) (limit : Option Int) : Session :=
  let reporter := reporter.registerFile path
  { reporter := { reporter with fatal := reporter.fatal && !interactive }
    path, limit, veto := none, definitions := .empty, results := #[] }

def modifyReporter (f : Reporter → Reporter) : Action Unit :=
  modify fun session => { session with reporter := f session.reporter }

def reporting {α : Type} (work : EStateM Fault Reporter α) : Action α := fun session =>
  match work session.reporter with
  | .ok a reporter => .ok a { session with reporter }
  | .error fault reporter => .error fault { session with reporter }

/-- Evaluates with this session's limit and definitions. Steps are noted only if they are traced. -/
def evaluate (session : Session) (expr : String) : Outcome Query String :=
  (Reducer.tracing session.limit session.veto session.reporter.trace).run session.definitions expr

def stepSymbol : String :=
  "β"

def printSteps (notes : List String) (reporter : Reporter) : Reporter :=
  notes.foldl (fun reporter text => reporter.step stepSymbol text) reporter

/-- Where a definition's name stands in its line. -/
def nameStart (expr name : String) : Int :=
  match Text.position? name.toList expr.toList with
  | some position => position
  | none => -1

/-- Stores a definition, warning if it replaces one. -/
def define (expr name : String) (body : Term) : Action Unit := do
  let session ← get
  if session.definitions.contains name then
    reporting (Reporter.warn (.overwrites expr name (nameStart expr name)))
  modify fun session => { session with definitions := session.definitions.insert name body }

/-- Evaluates an expression that stands at the given line, and keeps its result. -/
def add (expr : String) (number : Int) : Action Query := do
  let session ← get
  modifyReporter (·.registerLine session.path expr number)
  let outcome := session.evaluate expr
  modifyReporter (printSteps outcome.notes)
  let query ← MonadExcept.ofExcept outcome.result
  let text ← MonadExcept.ofExcept query.renderBounded
  match query with
  | .definition name body => define expr name body
  | .term _ => pure ()
  modify fun session => { session with results := session.results.push text }
  modifyReporter (·.removeLine session.path)
  return query

def pop : Action String := do
  let session ← get
  match session.results.back? with
  | none => throw (.defect .noResult)
  | some text =>
    set { session with results := session.results.pop }
    return text

/-- Does some work and deals with the fault it ends in, if any. -/
def guarded {α : Type} (work : Action α) : Action (Option α) := fun session =>
  match work session with
  | .ok a session => .ok (some a) session
  | .error fault session => (reporting (Reporter.absorb fault) *> pure none) session

/-- Evaluates the expressions of a file and prints each result as it comes. -/
def addAll : List Script.Entry → Action Unit
  | [] => return ()
  | entry :: entries => do
    let _ ← add entry.text entry.number
    let session ← get
    match session.results.back? with
    | some text => modifyReporter (·.print text)
    | none => pure ()
    addAll entries

/-- Works through the file of a session, given what the file holds or that it cannot be read. -/
def load (interactive : Bool) (contents : Option String) : Action Unit := do
  let session ← get
  if session.path = typedIn then
    if !interactive then
      throw (.diagnostic (.general "'<in>' is a reserved filename"))
  else if session.path.toList.contains '\x00' then
    throw (.defect .zeroByteInPath)
  else
    match contents with
    | none => throw (.diagnostic (.unreadable session.path))
    | some text => addAll (Script.entries (Text.lines text))

end Session

end CallByValue
