import CallByValue.Diagnostic
import CallByValue.Template.Filling
/-!
# Faults

Everything that can stop a line. A diagnostic blames the line itself. Three faults come from outside
it: the user interrupts, the program is told to exit, or evaluation runs out of room, either because
operands nest too deep or because it contracted more often than any run can. The rest are defects:
states that no line should be able to reach, each with the label and the text under which it is
reported.
-/

namespace CallByValue

/-- What a defect raised from outside was raised with. -/
inductive Argument where
  | text (s : String)
  | number (n : Int)
  /-- Any other value, by its writing. -/
  | literal (s : String)
deriving DecidableEq

namespace Argument

def plain : Argument → String
  | .text s => s
  | .number n => toString n
  | .literal s => s

def quoted : Argument → String
  | .text s => Text.quoted s
  | .number n => toString n
  | .literal s => s

/-- A single argument is shown as it is, or quoted if `keyed` says that it is a key that was looked
up; several are shown as a tuple. -/
def message (keyed : Bool) : List Argument → String
  | [] => ""
  | [argument] => if keyed then argument.quoted else argument.plain
  | arguments => "(" ++ String.intercalate ", " (arguments.map Argument.quoted) ++ ")"

end Argument

inductive Defect where
  | negativeIndex (index : Int)
  /-- A number takes too many digits to write. -/
  | tooManyDigits
  | emptyBinder
  | outOfTokens
  | noSnippet
  | noResult
  | zeroByteInPath
  /-- A limit that is not there was compared with a number of contractions. -/
  | noLimit
  /-- A row was to have a length that no machine word holds. -/
  | uncountable
  | outOfMemory
  | template (fault : Template.Fault)
  | other (label : String) (arguments : List Argument)
deriving DecidableEq

namespace Defect

def label : Defect → String
  | .negativeIndex _ => "ValueError"
  | .tooManyDigits => "ValueError"
  | .emptyBinder => "IndexError"
  | .outOfTokens => "IndexError"
  | .noSnippet => "IndexError"
  | .noResult => "IndexError"
  | .zeroByteInPath => "ValueError"
  | .noLimit => "TypeError"
  | .uncountable => "OverflowError"
  | .outOfMemory => "MemoryError"
  | .template fault => fault.label
  | .other label _ => label

def digitsText : String :=
  "Exceeds the limit (" ++ toString Text.maxDigits ++ " digits) for integer string conversion; " ++
    "use sys.set_int_max_str_digits() to increase the limit"

def indexText (index : Int) : String :=
  match Text.decimal? index with
  | some digits => "de Bruijn index must be non-negative, got " ++ digits
  | none => digitsText

def text : Defect → String
  | .negativeIndex index => indexText index
  | .tooManyDigits => digitsText
  | .emptyBinder => "string index out of range"
  | .outOfTokens => "list index out of range"
  | .noSnippet => "list index out of range"
  | .noResult => "pop from empty list"
  | .zeroByteInPath => "embedded null byte"
  | .noLimit => "'>' not supported between instances of 'int' and 'list'"
  | .uncountable => "cannot fit 'int' into an index-sized integer"
  | .outOfMemory => ""
  | .template fault => fault.text
  | .other label arguments => Argument.message (label = "KeyError") arguments

end Defect

inductive Fault where
  | diagnostic (d : Diagnostic)
  | interrupted
  | exit (code : Int)
  /-- An exit with something other than a code. -/
  | exitWith (arguments : List Argument)
  | depthExceeded
  | outOfFuel
  | defect (cause : Defect)
deriving DecidableEq

def Text.decimal (n : Int) : Except Fault String :=
  match Text.decimal? n with
  | some digits => .ok digits
  | none => .error (.defect .tooManyDigits)

/-- What is raised when evaluation goes beyond its limit. The limit is part of the message, so it has
to be written first. -/
def Fault.nonTermination (limit : Int) : Fault :=
  match Text.decimal limit with
  | .ok digits => .diagnostic (.nonTermination digits)
  | .error fault => fault

/-- What a diagnostic about a filled template needs to know beside the template. -/
structure DiagnosticOptions where
  kind : DiagnosticKind := .general
  start : Int := 0
  /-- Where the offending part ends, or -1 for the end of the expression. -/
  stop : Int := -1
  shown : Bool := true
  internal : Bool := false

namespace Diagnostic

/-- Fills `template` with the snippets, first in bold and then as they are. The first snippet is the
expression to blame, so there has to be one; a template that cannot be filled in bold is reported
before that. -/
def ofTemplate (style : Text.Style) (template : String) (snippets : List String)
    (options : DiagnosticOptions) : Except Fault Diagnostic :=
  match Template.fillRuns template (snippets.map style.bold), snippets with
  | .error fault, _ => .error (.defect (.template fault))
  | .ok _, [] => .error (.defect .noSnippet)
  | .ok styled, expr :: _ =>
    match Template.fillRuns template snippets with
    | .error fault => .error (.defect (.template fault))
    | .ok plain =>
      .ok { kind := options.kind, message := .ofRuns plain styled, expr, start := options.start,
            stop := stopIn expr options.stop, shown := options.shown,
            internal := options.internal }

end Diagnostic

end CallByValue
