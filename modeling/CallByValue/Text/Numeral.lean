import CallByValue.Text.Blank
/-!
# Whole numbers

A number is an optional sign and a row of decimal digits, with single underscores allowed between
digits and blanks allowed around the whole. Digits of every script count, so the table gives the
zero of each run of ten in Unicode 14. A row of more than 4300 digits is refused, in reading and in
writing.

Numbers inside templates are plain rows of digits instead, and have to fit a machine word.
-/

namespace CallByValue

namespace Text

def zeroDigits : List Nat :=
  [0x30, 0x660, 0x6F0, 0x7C0, 0x966, 0x9E6, 0xA66, 0xAE6, 0xB66, 0xBE6, 0xC66, 0xCE6, 0xD66, 0xDE6,
   0xE50, 0xED0, 0xF20, 0x1040, 0x1090, 0x17E0, 0x1810, 0x1946, 0x19D0, 0x1A80, 0x1A90, 0x1B50,
   0x1BB0, 0x1C40, 0x1C50, 0xA620, 0xA8D0, 0xA900, 0xA9D0, 0xA9F0, 0xAA50, 0xABF0, 0xFF10, 0x104A0,
   0x10D30, 0x11066, 0x110F0, 0x11136, 0x111D0, 0x112F0, 0x11450, 0x114D0, 0x11650, 0x116C0,
   0x11730, 0x118E0, 0x11950, 0x11C50, 0x11D50, 0x11DA0, 0x16A60, 0x16AC0, 0x16B50, 0x1D7CE,
   0x1D7D8, 0x1D7E2, 0x1D7EC, 0x1D7F6, 0x1E140, 0x1E2F0, 0x1E950, 0x1FBF0]

def digitValue? (c : Char) : Option Nat :=
  (zeroDigits.find? fun base => base ≤ c.toNat && c.toNat < base + 10).map (c.toNat - ·)

def maxDigits : Nat := 4300

/-- Reads the digits of a row whose previous character was a digit. -/
def digitRow : List Char → Option (List Nat)
  | [] => some []
  | '_' :: c :: cs => do
    let d ← digitValue? c
    let ds ← digitRow cs
    return d :: ds
  | c :: cs => do
    let d ← digitValue? c
    let ds ← digitRow cs
    return d :: ds

def ofDigits (digits : List Nat) : Nat :=
  digits.foldl (fun n d => 10 * n + d) 0

/-- The largest number that a signed machine word holds. -/
def maxWord : Nat := 0x7FFFFFFFFFFFFFFF

/-- The number that a text starts with, zero if it starts with no digit, and the rest of the text.
There is none if the number is too large for a machine word. -/
def leadingWord? (cs : List Char) : Option (Nat × List Char) :=
  let digits := cs.takeWhile fun c => (digitValue? c).isSome
  let number := ofDigits (digits.filterMap digitValue?)
  if maxWord < number then none else some (number, cs.drop digits.length)

/-- A row of digits with single underscores between them. -/
def natural? : List Char → Option Nat
  | [] => none
  | c :: cs => do
    let d ← digitValue? c
    let ds ← digitRow cs
    if maxDigits ≤ ds.length then none else return ofDigits (d :: ds)

/-- The blanks that may surround a number: among the ASCII ones, the information separators do not
count. -/
def isNumeralBlank (c : Char) : Bool :=
  isBlank c && !(0x1C ≤ c.toNat && c.toNat ≤ 0x1F)

/-- The writing of a number, unless it takes more digits than are allowed. -/
def decimal? (n : Int) : Option String :=
  if maxDigits < (Nat.toDigits 10 n.natAbs).length then none else some (toString n)

def trimNumeral (cs : List Char) : List Char :=
  ((cs.dropWhile isNumeralBlank).reverse.dropWhile isNumeralBlank).reverse

def integer? (s : String) : Option Int :=
  match trimNumeral s.toList with
  | '-' :: cs => (natural? cs).map fun n => -(n : Int)
  | '+' :: cs => (natural? cs).map Int.ofNat
  | cs => (natural? cs).map Int.ofNat

end Text

end CallByValue
