/-!
# Cutting a text at signed positions

A negative position counts from the end of the text, and a position beyond either end stands for
that end. Cutting never fails: a cut that starts after it stops is empty.
-/

namespace CallByValue

namespace Text

/-- The place in a text of `length` characters that a signed position stands for. -/
def place (length : Nat) (position : Int) : Nat :=
  if position < 0 then (position + length).toNat else min position.toNat length

def upTo (stop : Int) (cs : List Char) : List Char :=
  cs.take (place cs.length stop)

def startingAt (start : Int) (cs : List Char) : List Char :=
  cs.drop (place cs.length start)

def between (start stop : Int) (cs : List Char) : List Char :=
  (upTo stop cs).drop (place cs.length start)

theorem place_natCast (length position : Nat) : place length position = min position length := by
  have hnonneg : ¬ (position : Int) < 0 := by omega
  simp [place, hnonneg]

end Text

end CallByValue
