/-!
# Runs

A run is a number of copies of one character. A text that is made of runs can be far longer than
anything that is ever written, since a run is only counted until the text is expanded. So a fault
that comes up later is found without a long text being made first, and there are two bounds: runs
that no machine holds are never made, and runs that are too long to be of use are never written.
-/

namespace CallByValue

namespace Text

structure Run where
  char : Char
  count : Nat
deriving DecidableEq

namespace Run

/-- Longer runs do not fit into memory. -/
def maxCount : Nat := 0x1000000000

/-- Longer runs are not written. -/
def maxWritten : Nat := 0x800000

def isWritten (run : Run) : Bool :=
  run.count ≤ maxWritten

def ofChars (cs : List Char) : List Run :=
  cs.map fun c => ⟨c, 1⟩

def length : List Run → Nat
  | [] => 0
  | run :: runs => run.count + length runs

/-- The text that runs stand for. -/
def expand (runs : List Run) : List Char :=
  runs.flatMap fun run => List.replicate run.count run.char

@[simp] theorem expand_ofChars (cs : List Char) : expand (ofChars cs) = cs := by
  induction cs with
  | nil => rfl
  | cons c cs ih =>
    rw [ofChars, List.map_cons, expand, List.flatMap_cons]
    exact congrArg (c :: ·) ih

end Run

end Text

end CallByValue
