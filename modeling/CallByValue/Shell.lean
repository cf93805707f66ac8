import CallByValue.Session
/-!
# The shell

A shell reads lines that are typed in. A line that is just the name of a command carries it out;
every other line is an expression or a part of one. Commands are not looked for while an expression
is being continued, except the one that ends the input.
-/

namespace CallByValue

structure Shell where
  session : Session
  /-- The expression that the next line continues, or nothing. -/
  pending : String
  prompt : String
  lineNumber : Nat

namespace Shell

abbrev Action (α : Type) := EStateM Fault Shell α

def intro : String :=
  "Lambda calculus interpreter :: call-by-value\n" ++
    "Type '?' or 'help' for more information, 'q' to quit."

def help : String :=
  "Welcome to the lambda calculus interpreter!\n\n" ++
    "Terms are reduced call-by-value: both sides of an application are reduced to \n" ++
    "abstractions before the application itself. Write λ as '\\'.\n\n" ++
    "Try it out by typing 'id = \\x. x'. This will bind the term '\\x. x' to the \n" ++
    "name 'id'. Next, try typing 'id id'. This will apply 'id' to itself, giving \n" ++
    "'(\\x. x)' as the result. Type 'q' to quit."

def firstPrompt : String :=
  "> "

def continuationPrompt : String :=
  ". "

def new (session : Session) : Shell :=
  { session, pending := "", prompt := firstPrompt, lineNumber := 0 }

inductive Command where
  | quit
  | help
  | endOfInput
deriving DecidableEq

def Command.ofName? (name : String) : Option Command :=
  if name = "q" || name = "exit" then some .quit
  else if name = "help" then some .help
  else if name = "EOF" then some .endOfInput
  else none

/-- A command name is made of these. -/
def isNameChar (c : Char) : Bool :=
  Token.isLetter c || ('0' ≤ c && c ≤ '9') || c = '_'

/-- The command that a line is, if it is nothing but a command's name. A question mark asks for
help. -/
def command? (line : String) : Option Command :=
  let cs := (Text.strip line).toList
  let cs := match cs with
    | '?' :: rest => "help ".toList ++ rest
    | cs => cs
  let name := cs.takeWhile isNameChar
  let rest := cs.dropWhile isNameChar
  if (Text.dropBlank rest).isEmpty then Command.ofName? (String.ofList name) else none

def inSession {α : Type} (work : Session.Action α) : Action α := fun shell =>
  match work shell.session with
  | .ok a session => .ok a { shell with session }
  | .error fault session => .error fault { shell with session }

/-- Prints a text without adding a line end. -/
def write (text : String) : Action Unit :=
  inSession (Session.modifyReporter fun reporter =>
    { reporter with output := reporter.output ++ text })

/-- Whether the shell goes on after the command. -/
def perform : Command → Action Bool
  | .quit => return false
  | .help => do
    write (help ++ "\n")
    return true
  | .endOfInput => do
    write "\n"
    return false

/-- Joins a line to what is pending. If the expression is complete it is handed out, unless there is
nothing in it; otherwise it is what is pending next. -/
def accept (shell : Shell) (line : String) : Option String × Shell :=
  let shell := { shell with lineNumber := shell.lineNumber + 1 }
  let joined := if shell.pending.isEmpty then line else shell.pending ++ " " ++ line
  let text := Script.clean joined
  if Script.isOpen text then
    (none, { shell with pending := text, prompt := continuationPrompt })
  else
    (if text.isEmpty then none else some text,
      { shell with pending := "", prompt := firstPrompt })

/-- Evaluates an expression and prints its result. -/
def evaluate (text : String) : Action Unit := do
  let shell ← get
  inSession do
    let _ ← Session.add text shell.lineNumber
    let result ← Session.pop
    Session.modifyReporter (·.print result)

/-- Takes in a line of an expression, and evaluates the expression if that completes it. -/
def take (line : String) : Action Unit := do
  match ← modifyGet (accept · line) with
  | none => return ()
  | some text => evaluate text

/-- Does some work and deals with the fault it ends in, if any. -/
def guarded (work : Action Unit) : Action Unit := fun shell =>
  match work shell with
  | .ok _ shell => .ok () shell
  | .error fault shell => inSession (Session.reporting (Reporter.absorb fault)) shell

/-- Deals with one line and says whether the shell goes on. -/
def feed (line : String) : Action Bool := do
  let shell ← get
  let command := (command? line).filter fun command =>
    command = .endOfInput || shell.pending.isEmpty
  match command with
  | some command => perform command
  | none =>
    let text := Text.strip line
    if !text.isEmpty then guarded (take text)
    return true

/-- Shows the prompt before each line, until the shell stops or the lines run out, which ends the
input. -/
def feedAll : List String → Action Unit
  | [] => do
    write (← get).prompt
    let _ ← feed "EOF"
    return ()
  | line :: lines => do
    write (← get).prompt
    if ← feed line then feedAll lines

end Shell

end CallByValue
