import CallByValue.Text.Numeral
import CallByValue.Text.Quoted
/-!
# The command line

The program takes an optional file name and four options. An option may be abbreviated as long as it
is written with two dashes, its value may follow as the next word or after an equals sign, and the
value of a one-dash option may also follow at once. A value that is joined to its option and is a
pair of dashes counts as no value at all. After a lone pair of dashes every word is a value. A word
that starts with a dash is no option if it is a negative number, holds a space, or is just the dash.

Words are first sorted into options, values and the pair of dashes, and then worked off from left to
right: asking for help ends the program on the spot, as does an option that is used wrongly, while
words that nobody takes are only complained about at the end.
-/

namespace CallByValue

namespace CommandLine

inductive Flag where
  | help
  | expr
  | maxSteps
  | trace
deriving DecidableEq

namespace Flag

/-- Every spelling of an option, in the order in which they are listed. -/
def spellings : List (String × Flag) :=
  [("-h", .help), ("--help", .help), ("-e", .expr), ("--expr", .expr), ("--max-steps", .maxSteps),
   ("--trace", .trace)]

def title : Flag → String
  | .help => "-h/--help"
  | .expr => "-e/--expr"
  | .maxSteps => "--max-steps"
  | .trace => "--trace"

def takesValue : Flag → Bool
  | .help => false
  | .expr => true
  | .maxSteps => true
  | .trace => false

def ofSpelling? (spelling : String) : Option Flag :=
  spellings.lookup spelling

end Flag

/-- Why the command line does not lead to any work. -/
inductive Stop where
  | help
  | usage (text : String)
deriving DecidableEq

structure OptionWord where
  flag : Flag
  /-- Whether it was written with one dash. -/
  short : Bool
  /-- The text joined to the option. -/
  attached : Option (List Char)
deriving DecidableEq

inductive Word where
  | option (word : OptionWord) (raw : String)
  | unknown (raw : String)
  | value (raw : String)
  | separator
deriving DecidableEq

namespace Word

def raw : Word → String
  | .option _ raw => raw
  | .unknown raw => raw
  | .value raw => raw
  | .separator => "--"

def isOption : Word → Bool
  | .option _ _ => true
  | .unknown _ => true
  | _ => false

end Word

/-- Splits at the first equals sign, if there is one. -/
def splitEquals (cs : List Char) : List Char × Option (List Char) :=
  match cs.dropWhile (· ≠ '=') with
  | [] => (cs, none)
  | _ :: value => (cs.takeWhile (· ≠ '='), some value)

def isDigits (cs : List Char) : Bool :=
  cs.all fun c => (Text.digitValue? c).isSome

/-- A dash, and digits with at most one point among them. A line feed may end the word. -/
def isNegativeNumber (cs : List Char) : Bool :=
  match cs with
  | '-' :: rest =>
    let rest := if rest.getLast? = some '\n' then rest.dropLast else rest
    let whole := rest.takeWhile (· ≠ '.')
    match rest.dropWhile (· ≠ '.') with
    | [] => !whole.isEmpty && isDigits whole
    | _ :: fraction => isDigits whole && !fraction.isEmpty && isDigits fraction
  | _ => false

/-- The options that a word with two dashes may abbreviate. -/
def candidates (start : List Char) : List (String × Flag) :=
  Flag.spellings.filter fun spelling => start.isPrefixOf spelling.1.toList

def longOption? (raw : String) : Except Stop (Option OptionWord) :=
  let (start, value) := splitEquals raw.toList
  match candidates start with
  | [] => .ok none
  | [(_, flag)] => .ok (some ⟨flag, false, value⟩)
  | several =>
    .error (.usage ("ambiguous option: " ++ raw ++ " could match " ++
      String.intercalate ", " (several.map Prod.fst)))

/-- Reads a word that starts with one dash and is no option as it stands. -/
def shortOption? (raw : String) : Option OptionWord :=
  let cs := raw.toList
  match Flag.ofSpelling? (String.ofList (cs.take 2)) with
  | some flag => some ⟨flag, true, some (cs.drop 2)⟩
  | none => none

def unmatched (raw : String) : Word :=
  if isNegativeNumber raw.toList || raw.toList.contains ' ' then .value raw else .unknown raw

def classify (raw : String) : Except Stop Word :=
  match raw.toList with
  | '-' :: c :: _ =>
    match Flag.ofSpelling? raw with
    | some flag => .ok (.option ⟨flag, c ≠ '-', none⟩ raw)
    | none =>
      let (start, value) := splitEquals raw.toList
      match value, Flag.ofSpelling? (String.ofList start) with
      | some value, some flag => .ok (.option ⟨flag, c ≠ '-', some value⟩ raw)
      | _, _ =>
        if c = '-' then
          match longOption? raw with
          | .error stop => .error stop
          | .ok (some word) => .ok (.option word raw)
          | .ok none => .ok (unmatched raw)
        else
          match shortOption? raw with
          | some word => .ok (.option word raw)
          | none => .ok (unmatched raw)
  | _ => .ok (.value raw)

/-- Sorts the words. After the pair of dashes all of them are values. -/
def classifyAll : List String → Except Stop (List Word)
  | [] => .ok []
  | raw :: rest =>
    if raw = "--" then .ok (.separator :: rest.map .value)
    else do
      let word ← classify raw
      let words ← classifyAll rest
      return word :: words

/-- The value of an option, which may turn out to be no value. -/
inductive Value (α : Type) where
  | given (a : α)
  | blank
deriving DecidableEq

/-- The value that a text joined to an option stands for. -/
def Value.ofAttached (cs : List Char) : Value String :=
  if cs = ['-', '-'] then .blank else .given (String.ofList cs)

structure Settings where
  file : Option String := none
  expr : Option (Value String) := none
  maxSteps : Option (Value Int) := none
  trace : Bool := false
deriving DecidableEq

/-- The settings so far, whether the file name has been taken, and the words nobody took. -/
structure Reading where
  settings : Settings := {}
  fileTaken : Bool := false
  extras : List String := []

def argumentError (flag : Flag) (text : String) : Stop :=
  .usage ("argument " ++ flag.title ++ ": " ++ text)

def ignored (flag : Flag) (value : List Char) : Stop :=
  argumentError flag ("ignored explicit argument " ++ Text.quoted (String.ofList value))

def setFlag (flag : Flag) (reading : Reading) : Except Stop Reading :=
  match flag with
  | .help => .error .help
  | .trace => .ok { reading with settings := { reading.settings with trace := true } }
  | _ => .ok reading

def setValue (flag : Flag) (value : Value String) (reading : Reading) : Except Stop Reading :=
  let settings := reading.settings
  match flag, value with
  | .expr, value => .ok { reading with settings := { settings with expr := some value } }
  | .maxSteps, .blank => .ok { reading with settings := { settings with maxSteps := some .blank } }
  | .maxSteps, .given text =>
    match Text.integer? text with
    | some n => .ok { reading with settings := { settings with maxSteps := some (.given n) } }
    | none => .error (argumentError flag ("invalid int value: " ++ Text.quoted text))
  | _, _ => .ok reading

/-- What a chain of one-dash options comes to, such as `-he`, where only the last one may take a
value. The flags before it are carried out first. -/
structure Chain where
  before : List Flag
  last : Flag
  value : Option (Value String)

/-- Splits the text attached to a one-dash option into the options it stands for, and the value of
the last one if it takes a value. -/
def chain (before : List Flag) (flag : Flag) : List Char → Except Stop Chain
  | [] =>
    if flag.takesValue then .ok ⟨before, flag, some (.ofAttached [])⟩
    else .error (ignored flag [])
  | c :: rest =>
    if flag.takesValue then .ok ⟨before, flag, some (.ofAttached (c :: rest))⟩
    else match Flag.ofSpelling? (String.ofList ['-', c]) with
      | none => .error (ignored flag (c :: rest))
      | some next =>
        if rest.isEmpty then .ok ⟨before ++ [flag], next, none⟩
        else chain (before ++ [flag]) next rest

/-- Takes the value of an option from the words that follow. -/
def followingValue (flag : Flag) : List Word → Except Stop (String × List Word)
  | .value raw :: rest => .ok (raw, rest)
  | _ => .error (argumentError flag "expected one argument")

def setFlags : List Flag → Reading → Except Stop Reading
  | [], reading => .ok reading
  | flag :: flags, reading => do
    let reading ← setFlag flag reading
    setFlags flags reading

/-- Carries out an option whose value, if it takes one, is among the words that follow. -/
def takeOption (before : List Flag) (flag : Flag) (rest : List Word) (reading : Reading) :
    Except Stop (Reading × List Word) :=
  if flag.takesValue then do
    let (value, rest) ← followingValue flag rest
    let reading ← setFlags before reading
    let reading ← setValue flag (.given value) reading
    return (reading, rest)
  else do
    let reading ← setFlags before reading
    let reading ← setFlag flag reading
    return (reading, rest)

/-- Carries out an option word. The words that are left are returned with the new reading. -/
def consumeOption (word : OptionWord) (rest : List Word) (reading : Reading) :
    Except Stop (Reading × List Word) :=
  match word.attached with
  | none => takeOption [] word.flag rest reading
  | some cs =>
    if !word.short && !word.flag.takesValue then .error (ignored word.flag cs)
    else do
      let chain ← chain [] word.flag cs
      match chain.value with
      | some value =>
        let reading ← setFlags chain.before reading
        let reading ← setValue chain.last value reading
        return (reading, rest)
      | none => takeOption chain.before chain.last rest reading

/-- The reading after its one chance of a file name is used, with or without one. -/
def Reading.withFile (reading : Reading) (file : Option String) : Reading :=
  { reading with settings := { reading.settings with file }, fileTaken := true }

def takeFile (reading : Reading) : List Word → Reading × List Word
  | .separator :: .value raw :: rest => (reading.withFile (some raw), rest)
  | .separator :: rest => (reading.withFile none, rest)
  | .value raw :: .separator :: rest => (reading.withFile (some raw), rest)
  | .value raw :: rest => (reading.withFile (some raw), rest)
  | words => (reading.withFile none, words)

/-- Works off the words after the last option. -/
def finish (reading : Reading) (words : List Word) : Reading :=
  let (reading, words) := if reading.fileTaken then (reading, words) else takeFile reading words
  { reading with extras := reading.extras ++ words.map Word.raw }

/-- Works off the words from left to right. Every round takes at least one of them, so `bound`
rounds do for fewer words than that. -/
def work : (bound : Nat) → Reading → List Word → Except Stop Reading
  | 0, reading, _ => .ok reading
  | bound + 1, reading, words =>
    if !words.any Word.isOption then .ok (finish reading words)
    else match words with
      | .option word _ :: rest => do
        let (reading, rest) ← consumeOption word rest reading
        work bound reading rest
      | .unknown raw :: rest =>
        work bound { reading with extras := reading.extras ++ [raw] } rest
      | word :: rest =>
        if reading.fileTaken then
          work bound { reading with extras := reading.extras ++ [word.raw] } rest
        else
          let (reading, rest) := takeFile reading (word :: rest)
          work bound reading rest
      | [] => .ok (finish reading [])

def parse (arguments : List String) : Except Stop Settings := do
  let words ← classifyAll arguments
  let reading ← work (words.length + 1) {} words
  if reading.extras.isEmpty then return reading.settings
  else .error (.usage ("unrecognized arguments: " ++ String.intercalate " " reading.extras))

def usageLine : String :=
  "usage: nameless [-h] [-e EXPR] [--max-steps N] [--trace] [file]\n"

def helpText : String :=
  usageLine ++
    "\n" ++
    "positional arguments:\n" ++
    "  file                  file to interpret and run (if empty, goes to command-\n" ++
    "                        line mode)\n" ++
    "\n" ++
    "options:\n" ++
    "  -h, --help            show this help message and exit\n" ++
    "  -e EXPR, --expr EXPR  evaluate a single expression with no named definitions\n" ++
    "                        and exit\n" ++
    "  --max-steps N         give up on a line after N β-reductions (default: no\n" ++
    "                        limit)\n" ++
    "  --trace               print every β-reduction\n"

def usageError (text : String) : String :=
  usageLine ++ "nameless: error: " ++ text ++ "\n"

end CommandLine

end CallByValue
