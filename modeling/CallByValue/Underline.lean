import CallByValue.Fault
import CallByValue.Text.Slice
/-!
# Underlining

An expression is repeated with the offending part coloured, and a caret and tildes are drawn under
the part; an empty part still gets its caret. Positions follow the rules for cutting a text, so a
part that lies outside the expression is no fault in itself. Only a row of blanks or tildes whose
length is beyond all measure cannot be drawn, and a row that is no wider than the expression always
can. Both rows are measured before either is drawn.
-/

namespace CallByValue

namespace Diagnostic

/-- Where the underlined part ends: it is at least one character wide. -/
def underlineStop (d : Diagnostic) : Int :=
  max d.stop (d.start + 1)

/-- A row of `count` copies of `c` under an expression of the given width. -/
def row (width : Nat) (count : Int) (c : Char) : Except Fault Text.Run :=
  if count.natAbs ≤ width then .ok ⟨c, count.toNat⟩
  else if count < -Text.maxWord - 1 || Text.maxWord < count then .error (.defect .uncountable)
  else if Text.Run.maxCount < count then .error (.defect .outOfMemory)
  else .ok ⟨c, count.toNat⟩

def rowText (width : Nat) (run : Text.Run) : Except Fault String :=
  if run.count ≤ width || run.isWritten then .ok (String.ofList (Text.Run.expand [run]))
  else .error (.defect .outOfMemory)

/-- The expression with the offending part in `colour`, and the same part underlined below it. -/
def underlined (d : Diagnostic) (style : Text.Style) (colour : Text.Colour) :
    Except Fault String := do
  let cs := d.expr.toList
  let stop := d.underlineStop
  let blankRow ← row cs.length d.start ' '
  let tildeRow ← row cs.length (stop - d.start - 1) '~'
  let blanks ← rowText cs.length blankRow
  let tildes ← rowText cs.length tildeRow
  return "  " ++ String.ofList (Text.upTo d.start cs) ++
    style.boldIn colour (String.ofList (Text.between d.start stop cs)) ++
    String.ofList (Text.startingAt stop cs) ++ "\n" ++
    "  " ++ blanks ++ style.boldIn colour ("^" ++ tildes)

end Diagnostic

end CallByValue
