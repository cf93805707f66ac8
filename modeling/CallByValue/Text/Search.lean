/-!
# Looking for one text inside another

Positions count code points from the start of the text. The empty text occurs everywhere, so it is
found at position 0.
-/

namespace CallByValue

namespace Text

def position? (needle : List Char) : List Char → Option Nat
  | [] => if needle.isEmpty then some 0 else none
  | c :: cs =>
    if needle.isPrefixOf (c :: cs) then some 0 else (position? needle cs).map (· + 1)

/-- What stands before the first `needle`, or everything if there is none. -/
def before (needle cs : List Char) : List Char :=
  match position? needle cs with
  | some i => cs.take i
  | none => cs

end Text

end CallByValue
