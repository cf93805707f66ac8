import CallByValue.Text.Blank
import CallByValue.Text.Search
/-!
# From lines to expressions

A comment runs from two semicolons to the end of its line, and blanks around what is left do not
count. An expression may go on over several lines: as long as it has opened more parentheses than it
has closed, the next line is joined to it with a space. A joined expression keeps the number of its
first line, and lines with nothing on them neither start an expression nor add to one.
-/

namespace CallByValue

namespace Script

def commentMark : List Char :=
  [';', ';']

/-- The line without its comment and without the blanks around the rest. -/
def clean (line : String) : String :=
  Text.strip (String.ofList (Text.before commentMark line.toList))

/-- Whether the text opens more parentheses than it closes. -/
def isOpen (text : String) : Bool :=
  text.toList.count ')' < text.toList.count '('

structure Entry where
  text : String
  number : Int
deriving DecidableEq

/-- The expressions found so far, the latest first, and whether the latest one goes on. -/
structure Grouping where
  entries : List Entry
  continuing : Bool
deriving DecidableEq

namespace Grouping

def empty : Grouping :=
  ⟨[], false⟩

/-- Takes in one line. The text returned is that of the expression the line now belongs to. -/
def feed (grouping : Grouping) (number : Int) (line : String) : String × Grouping :=
  let text := clean line
  match grouping.continuing, grouping.entries with
  | true, latest :: earlier =>
    let joined := Text.stripEnd (latest.text ++ " " ++ text)
    (joined, ⟨⟨joined, latest.number⟩ :: earlier, isOpen joined⟩)
  | _, entries =>
    (text, ⟨if text.isEmpty then entries else ⟨text, number⟩ :: entries, isOpen text⟩)

def feedAll : Grouping → (number : Int) → List String → Grouping
  | grouping, _, [] => grouping
  | grouping, number, line :: lines => feedAll (grouping.feed number line).2 (number + 1) lines

end Grouping

/-- The expressions of a file, in order. Lines count from one. -/
def entries (lines : List String) : List Entry :=
  (Grouping.empty.feedAll 1 lines).entries.reverse

end Script

end CallByValue
