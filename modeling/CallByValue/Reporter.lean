import CallByValue.NameMap
import CallByValue.Text.Search
import CallByValue.Underline
/-!
# Reporting

A reporter prints. It knows which line of which file is being worked on, so that a report can say
where it comes from, and what a fault means for the program: after a fatal one the program exits,
otherwise the report is all that happens and the work goes on with no line registered.

Everything printed so far is kept in `output`. Texts are made of characters, so none holds half of a
surrogate pair, and printing itself cannot fail. What can fail is making the text to be printed: a
number may take more digits than are ever written, and a row more room than there is.
-/

namespace CallByValue

/-- What is known about the line of a file that is being worked on. -/
structure SourceLine where
  text : Option String
  number : Option Int
deriving DecidableEq

def SourceLine.unset : SourceLine :=
  ⟨none, none⟩

/-- A line that is being worked on, with the file it comes from. -/
structure ActiveLine where
  path : String
  text : String
  number : Option Int
deriving DecidableEq

def ActiveLine.numberText (line : ActiveLine) : Except Fault String :=
  match line.number with
  | some n => Text.decimal n
  | none => .ok "None"

structure Reporter where
  style : Text.Style
  fatal : Bool
  trace : Bool
  /-- The files in the order they were first registered, each with the line being worked on. -/
  origins : NameMap SourceLine
  output : String

namespace Reporter

def new (style : Text.Style) (trace : Bool) : Reporter :=
  { style, fatal := true, trace, origins := .empty, output := "" }

def print (reporter : Reporter) (text : String) : Reporter :=
  { reporter with output := reporter.output ++ text ++ "\n" }

def register (reporter : Reporter) (path : String) (line : SourceLine) : Reporter :=
  { reporter with origins := reporter.origins.insert path line }

def registerFile (reporter : Reporter) (path : String) : Reporter :=
  reporter.register path .unset

def registerLine (reporter : Reporter) (path text : String) (number : Int) : Reporter :=
  reporter.register path ⟨some text, some number⟩

def removeLine (reporter : Reporter) (path : String) : Reporter :=
  reporter.register path .unset

/-- Forgets every registered line, and no file. -/
def removeLines (reporter : Reporter) : Reporter :=
  { reporter with origins := reporter.origins.fill .unset }

def step (reporter : Reporter) (symbol text : String) : Reporter :=
  if reporter.trace then reporter.print (reporter.style.dark ("  " ++ symbol ++ " ") ++ text)
  else reporter

/-- The lines being worked on that are not empty. -/
def activeLines (reporter : Reporter) : List ActiveLine :=
  reporter.origins.entries.filterMap fun
    | (path, ⟨some text, number⟩) => if text.isEmpty then none else some ⟨path, text, number⟩
    | (_, ⟨none, _⟩) => none

/-- The column of the offending part in its line, or one counted from just before the line if the
line does not hold the expression. -/
def column (d : Diagnostic) (line : ActiveLine) : Int :=
  let found : Int :=
    match Text.position? d.expr.toList line.text.toList with
    | some position => position
    | none => -1
  found + d.start + 1

/-- The writing of a column. One no further out than the line and the expression are long together
can always be written. -/
def columnText (d : Diagnostic) (line : ActiveLine) : Except Fault String :=
  let n := column d line
  if n.natAbs ≤ line.text.length + d.expr.length + 1 then .ok (toString n) else Text.decimal n

/-- Shows the expression of a diagnostic, unless there is nothing to show. -/
def underline (d : Diagnostic) (colour : Text.Colour) : EStateM Fault Reporter Unit := do
  if d.isShown then
    let text ← MonadExcept.ofExcept (d.underlined (← get).style colour)
    modify (·.print text)

/-- The place of the offending part in a line. -/
def placeIn (reporter : Reporter) (d : Diagnostic) (line : ActiveLine) : Except Fault String := do
  let number ← line.numberText
  let column ← columnText d line
  return reporter.style.bold (line.path ++ ":" ++ number ++ ":" ++ column ++ ": ")

/-- Where a warning comes from: the place in the file registered last. The places in the other files
are not shown, but it must be possible to write them too. -/
def place (reporter : Reporter) (d : Diagnostic) : Except Fault String := do
  let places ← reporter.activeLines.mapM (reporter.placeIn d)
  return places.getLast?.getD ""

def printMessage (front : String) (message : Message) : EStateM Fault Reporter Unit := do
  let style := (← get).style
  if message.isWritten then modify (·.print (front ++ message.styled style))
  else throw (.defect .outOfMemory)

def warn (d : Diagnostic) : EStateM Fault Reporter Unit := do
  let reporter ← get
  let place ← MonadExcept.ofExcept (reporter.place d)
  printMessage (place ++ reporter.style.boldIn .magenta "warning: ") d.message
  underline d .magenta

def originText (line : ActiveLine) : Except Fault String := do
  let number ← line.numberText
  return "  File '" ++ line.path ++ "', line " ++ number ++ ":\n" ++ "    " ++ line.text ++ "\n"

/-- Where a fault comes from. A single line that was just typed in is not repeated, but it must be
possible to write its number. -/
def location (reporter : Reporter) : Except Fault String := do
  match ← reporter.activeLines.mapM originText with
  | [] => return ""
  | [origin] => return if reporter.fatal then origin else ""
  | origins => return "Traceback:\n" ++ String.join origins

def errorFront (reporter : Reporter) (d : Diagnostic) : Except Fault String := do
  let location ← reporter.location
  let label := if d.internal then reporter.style.boldIn .red "[internal] " else ""
  return location ++ label ++ reporter.style.boldIn .red "error: "

/-- Reports an error, which ends the program if errors are fatal. -/
def report (d : Diagnostic) : EStateM Fault Reporter Unit := do
  let front ← MonadExcept.ofExcept ((← get).errorFront d)
  printMessage front d.message
  underline d .red
  if (← get).fatal then throw (.exit 1) else modify removeLines

def interruptText : String :=
  "keyboard interrupt"

def depthText : String :=
  "value might exist, but maximum recursion depth exceeded"

def defectText (cause : Defect) : String :=
  "unknown error: '" ++ cause.label ++ ": " ++ cause.text ++ "'"

/-- Deals with a fault that ended a piece of work. Defects are reported and passed on, so that they
never go unnoticed; an exit is only passed on. -/
def absorb : Fault → EStateM Fault Reporter Unit
  | .diagnostic d => report d
  | .interrupted => report (.general interruptText)
  | .depthExceeded => report (.general depthText)
  | .outOfFuel => report (.general depthText)
  | .exit code => throw (.exit code)
  | .exitWith arguments => throw (.exitWith arguments)
  | .defect cause => do
    let style := (← get).style
    let template := Template.escape (defectText cause)
    match Diagnostic.ofTemplate style template [""] { internal := true } with
    | .error fault => throw fault
    | .ok d => report d
    throw (.defect cause)

end Reporter

end CallByValue
