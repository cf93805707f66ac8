import CallByValue.Template.Layout
/-!
# Layouts of numbers

A whole number is laid out in one of several styles: in base ten, two, eight or sixteen, as the
character with that code, or like a real number, with a fraction, with an exponent, or in hundreds.
The digits before the point may be grouped, and the rest of the width is filled in front, behind, or
between the sign and the digits. If it is filled with zeros there, they are grouped with the digits.

Real numbers have 53 significant binary digits, so a whole number with more is rounded first.
-/

namespace CallByValue

namespace Template

/-- A number before it is padded. -/
structure Figures where
  /-- What stands in front of digits that are not in base ten. -/
  mark : List Char := []
  digits : List Char
  /-- What follows the digits: a point, a fraction, an exponent. -/
  rest : List Text.Run := []

namespace Figures

/-- Groups digits, of which the last comes first, and adds zeros until they take up the width. At
most `bound` groups are made. -/
def grouped (separator : Char) (size : Nat) :
    (bound : Nat) → (width : Int) → List Char → List Char
  | 0, _, digits => digits
  | bound + 1, width, digits =>
    let taken := min size (max (max digits.length width.toNat) 1)
    let group := digits.take taken
    let group := group ++ List.replicate (taken - group.length) '0'
    let digits := digits.drop taken
    let width := width - taken
    if digits.isEmpty && width ≤ 0 then group
    else group ++ separator :: grouped separator size bound (width - 1) digits

/-- Digits in base two, eight and sixteen are grouped by four, the others by three. -/
def groupSize (style : Char) : Nat :=
  if "boxX".toList.contains style then 4 else 3

/-- The sign of a number that is not negative. -/
def signOf (layout : Layout) : List Char :=
  match layout.sign with
  | some '-' => []
  | sign => sign.toList

/-- The digits of a number, grouped and filled with zeros to the width. If that is too wide to be
written, the zeros are only counted. -/
def digitRuns (figures : Figures) (separator style : Char) (width : Int) : List Text.Run :=
  if figures.digits.isEmpty then []
  else if (Text.Run.maxWritten : Int) < width then [⟨'0', width.toNat⟩]
  else Text.Run.ofChars (grouped separator (groupSize style)
    (figures.digits.length + width.toNat + 1) width figures.digits.reverse).reverse

def apply (figures : Figures) (layout : Layout) : Except Fault (List Text.Run) :=
  let alignment := layout.alignment.getD .right
  let fill := layout.fill.getD ' '
  let front := signOf layout ++ figures.mark
  let others := front.length + Text.Run.length figures.rest
  let digitWidth : Int := if fill = '0' && alignment = .inside then layout.width - others else 0
  let digits :=
    match layout.separator with
    | some separator => digitRuns figures separator layout.style digitWidth
    | none => Text.Run.ofChars figures.digits
  let padding := layout.width - (others + Text.Run.length digits)
  let before := alignment.before padding
  let front := Text.Run.ofChars front
  if Text.Run.maxCount < layout.width then .error .tooWide
  else if alignment = .inside then .ok (front ++ ⟨fill, padding⟩ :: digits ++ figures.rest)
  else .ok (⟨fill, before⟩ :: front ++ digits ++ figures.rest ++ [⟨fill, padding - before⟩])

/-- The figures of a whole number in a base, with the mark of the base if that is asked for. -/
def ofBase (layout : Layout) (base : Nat) (mark : String) (n : Nat) : Figures :=
  { mark := if layout.alternate then mark.toList else [], digits := Nat.toDigits base n }

def upperDigits (figures : Figures) : Figures :=
  { figures with digits := figures.digits.map Char.toUpper }

def ofCharacter (layout : Layout) (n : Nat) : Except Fault Figures :=
  if layout.sign.isSome then .error .signOfCharacter
  else if layout.alternate then .error .alternateCharacter
  else if 0x10FFFF < n then .error .noCharacter
  else .ok { digits := [], rest := [⟨Char.ofNat n, 1⟩] }

def whole (layout : Layout) (n : Nat) : Except Fault Figures :=
  if layout.precision.isSome then .error .precisionRefused
  else if layout.zeroSign then .error .zeroSignInWhole
  else if layout.style = 'c' then ofCharacter layout n
  else if layout.style = 'b' then .ok (ofBase layout 2 "0b" n)
  else if layout.style = 'o' then .ok (ofBase layout 8 "0o" n)
  else if layout.style = 'x' then .ok (ofBase layout 16 "0x" n)
  else if layout.style = 'X' then .ok (upperDigits (ofBase layout 16 "0X" n))
  else .ok (ofBase layout 10 "" n)

/-- A quotient, rounded to the nearest number and at a tie to the even one. -/
def roundDiv (n d : Nat) : Nat :=
  let q := n / d
  let r := n % d
  if d < 2 * r || (2 * r = d && q % 2 = 1) then q + 1 else q

/-- A whole number with at most 53 significant binary digits. -/
def toReal (n : Nat) : Nat :=
  let excess := n.log2 + 1 - 53
  let unit := Nat.pow 2 excess
  roundDiv n unit * unit

/-- The first digits of a number, rounded, at most `count` of them, and the power of ten of the
first. -/
def significant (count n : Nat) : List Char × Nat :=
  let digits := Nat.toDigits 10 n
  let power := digits.length - 1
  if power < count then (digits, power)
  else
    let kept := Nat.toDigits 10 (roundDiv n (Nat.pow 10 (power + 1 - count)))
    (kept.take count, power + (kept.length - count))

/-- A point and a fraction with a number of zeros at its end. Without a fraction there is no point,
unless it is asked for. -/
def fraction (layout : Layout) (digits : List Char) (zeros : Nat) : List Text.Run :=
  if digits.isEmpty && zeros = 0 && !layout.alternate then []
  else ⟨'.', 1⟩ :: Text.Run.ofChars digits ++ [⟨'0', zeros⟩]

def dropZeros (digits : List Char) : List Char :=
  (digits.reverse.dropWhile (· = '0')).reverse

/-- At least two digits of exponent. -/
def exponent (mark : Char) (power : Nat) : List Text.Run :=
  let digits := Nat.toDigits 10 power
  ⟨mark, 1⟩ :: ⟨'+', 1⟩ :: ⟨'0', 2 - digits.length⟩ :: Text.Run.ofChars digits

def fixed (layout : Layout) (places n : Nat) : Figures :=
  { digits := Nat.toDigits 10 n, rest := fraction layout [] places }

def scientific (layout : Layout) (mark : Char) (places n : Nat) : Figures :=
  let (digits, power) := significant (places + 1) n
  { digits := digits.take 1
    rest := fraction layout (digits.drop 1) (places + 1 - digits.length) ++ exponent mark power }

/-- Fixed or scientific, whichever suits the size of the number, with no zeros at the end unless
they are asked for. -/
def general (layout : Layout) (mark : Char) (count n : Nat) : Figures :=
  let count := max count 1
  let (digits, power) := significant count n
  let zeros := if layout.alternate then count - digits.length else 0
  let trim := fun digits => if layout.alternate then digits else dropZeros digits
  if power < count then { digits, rest := fraction layout [] zeros }
  else
    { digits := digits.take 1
      rest := fraction layout (trim (digits.drop 1)) zeros ++ exponent mark power }

/-- A longer fraction is not written. -/
def maxPrecision : Nat := 0x7FFFFFFF

def real (layout : Layout) (n : Nat) : Except Fault Figures :=
  let n := toReal n
  let precision := layout.precision.getD 6
  if maxPrecision < precision then .error .precisionTooBig
  else if layout.style = 'f' || layout.style = 'F' then .ok (fixed layout precision n)
  else if layout.style = '%' then
    let figures := fixed layout precision (toReal (100 * n))
    .ok { figures with rest := figures.rest ++ [⟨'%', 1⟩] }
  else if layout.style = 'e' then .ok (scientific layout 'e' precision n)
  else if layout.style = 'E' then .ok (scientific layout 'E' precision n)
  else if layout.style = 'g' then .ok (general layout 'e' precision n)
  else .ok (general layout 'E' precision n)

def layOut (k : Kind) (layout : List Char) (n : Nat) : Except Fault (List Text.Run) := do
  let layout ← Layout.read k layout
  if "bcdoxXn".toList.contains layout.style then (← whole layout n).apply layout
  else if "eEfFgG%".toList.contains layout.style then (← real layout n).apply layout
  else .error (.unknownStyle layout.style k.label)

end Figures

end Template

end CallByValue
