/-!
# Lines

A line ends at a line feed, a carriage return or the two together; no other character ends one. What
follows the last line end is a line of its own unless it is empty.
-/

namespace CallByValue

namespace Text

/-- Cuts the characters that follow `line`, which holds the current line backwards. -/
def cutLines (line : List Char) : List Char → List (List Char)
  | [] => if line.isEmpty then [] else [line.reverse]
  | '\r' :: '\n' :: cs => line.reverse :: cutLines [] cs
  | c :: cs =>
    if c = '\n' || c = '\r' then line.reverse :: cutLines [] cs else cutLines (c :: line) cs

def lines (s : String) : List String :=
  (cutLines [] s.toList).map String.ofList

end Text

end CallByValue
