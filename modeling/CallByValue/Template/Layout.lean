import CallByValue.Template.Kind
import CallByValue.Template.Fault
import CallByValue.Text.Numeral
import CallByValue.Text.Run
/-!
# Layouts

A field of a template may say how it is laid out. A text is cut to a precision, and then padded to a
width on one side or on both. Padding repeats a fill character, a blank unless another one stands in
front of the alignment mark. A layout is written as

* an alignment mark with an optional fill character before it,
* a sign, the letter for unsigned zeros, the mark for alternate forms, and a zero to fill with,
* the width, the marks for separators between digits, a point and the precision,
* and a letter for the style,

each of which may be left out. Signs, separators and the like are for numbers, and are refused where
a text is laid out.
-/

namespace CallByValue

namespace Template

inductive Alignment where
  | left
  | right
  | centre
  /-- Between a number's sign and its digits. -/
  | inside
deriving DecidableEq

def Alignment.ofMark? (c : Char) : Option Alignment :=
  if c = '<' then some .left
  else if c = '>' then some .right
  else if c = '^' then some .centre
  else if c = '=' then some .inside
  else none

/-- How much of the padding goes to the left of a text. -/
def Alignment.before (padding : Nat) : Alignment → Nat
  | .right => padding
  | .centre => padding / 2
  | _ => 0

structure Layout where
  fill : Option Char := none
  alignment : Option Alignment := none
  sign : Option Char := none
  zeroSign : Bool := false
  alternate : Bool := false
  width : Nat := 0
  separator : Option Char := none
  precision : Option Nat := none
  style : Char

namespace Layout

/-- The alignment a layout starts with, and the rest of it. -/
def readAlignment (style : Char) (cs : List Char) : Layout × List Char :=
  match cs with
  | fill :: mark :: rest =>
    match Alignment.ofMark? mark, Alignment.ofMark? fill with
    | some alignment, _ => ({ fill := some fill, alignment := some alignment, style }, rest)
    | none, some alignment => ({ alignment := some alignment, style }, mark :: rest)
    | none, none => ({ style }, cs)
  | [mark] =>
    match Alignment.ofMark? mark with
    | some alignment => ({ alignment := some alignment, style }, [])
    | none => ({ style }, cs)
  | [] => ({ style }, [])

def isSign (c : Char) : Bool :=
  c = '+' || c = '-' || c = ' '

def readSign (layout : Layout) : List Char → Layout × List Char
  | c :: cs => if isSign c then ({ layout with sign := some c }, cs) else (layout, c :: cs)
  | [] => (layout, [])

def readZeroSign (layout : Layout) : List Char → Layout × List Char
  | 'z' :: cs => ({ layout with zeroSign := true }, cs)
  | cs => (layout, cs)

def readAlternate (layout : Layout) : List Char → Layout × List Char
  | '#' :: cs => ({ layout with alternate := true }, cs)
  | cs => (layout, cs)

/-- A zero in front of the width is the fill character, unless there is one. Where no alignment is
given, a number is then filled inside. -/
def readZeroFill (isNumber : Bool) (layout : Layout) : List Char → Layout × List Char
  | '0' :: cs =>
    if layout.fill.isSome then (layout, '0' :: cs)
    else if isNumber then
      ({ layout with fill := some '0', alignment := layout.alignment.or (some .inside) }, cs)
    else ({ layout with fill := some '0' }, cs)
  | cs => (layout, cs)

def readWidth (layout : Layout) (cs : List Char) : Except Fault (Layout × List Char) :=
  match Text.leadingWord? cs with
  | none => .error .tooManyDigits
  | some (width, rest) => .ok ({ layout with width }, rest)

/-- Only one kind of separator may be asked for. -/
def readSeparator (layout : Layout) : List Char → Except Fault (Layout × List Char)
  | ',' :: '_' :: _ => .error .bothSeparators
  | '_' :: ',' :: _ => .error .bothSeparators
  | ',' :: cs => .ok ({ layout with separator := some ',' }, cs)
  | '_' :: cs => .ok ({ layout with separator := some '_' }, cs)
  | cs => .ok (layout, cs)

def readPrecision (layout : Layout) : List Char → Except Fault (Layout × List Char)
  | '.' :: cs =>
    match Text.leadingWord? cs with
    | none => .error .tooManyDigits
    | some (precision, rest) =>
      if rest.length = cs.length then .error .noPrecision
      else .ok ({ layout with precision := some precision }, rest)
  | cs => .ok (layout, cs)

def isSeparated (separator style : Char) : Bool :=
  "defgEG%F\x00".toList.contains style || (separator = '_' && "boxX".toList.contains style)

/-- Refuses separators in a style that has none. -/
def checkSeparator (layout : Layout) : Except Fault Layout :=
  match layout.separator.filter fun separator => !isSeparated separator layout.style with
  | some separator => .error (.separatorRefused separator layout.style)
  | none => .ok layout

/-- Reads the layout of a text or a number, whose kind is named if nothing else fits. -/
def read (k : Kind) (cs : List Char) : Except Fault Layout := do
  let isNumber := k ≠ .text
  let (layout, rest) := readAlignment (if isNumber then 'd' else 's') cs
  let (layout, rest) := readSign layout rest
  let (layout, rest) := readZeroSign layout rest
  let (layout, rest) := readAlternate layout rest
  let (layout, rest) := readZeroFill isNumber layout rest
  let (layout, rest) ← readWidth layout rest
  let (layout, rest) ← readSeparator layout rest
  let (layout, rest) ← readPrecision layout rest
  match rest with
  | [] => checkSeparator layout
  | [style] => checkSeparator { layout with style }
  | _ => .error (.junkInLayout (String.ofList cs) k.label)

def checkText (layout : Layout) : Except Fault Layout :=
  if layout.style ≠ 's' then .error (.unknownStyle layout.style Kind.text.label)
  else if layout.sign = some ' ' then .error .spaceRefused
  else if layout.sign.isSome then .error .signRefused
  else if layout.zeroSign then .error .zeroSignRefused
  else if layout.alternate then .error .alternateRefused
  else if layout.alignment = some .inside then .error .numericAlignment
  else .ok layout

/-- Cuts a text to the precision and pads it to the width. -/
def apply (layout : Layout) (cs : List Char) : Except Fault (List Text.Run) :=
  let cs := match layout.precision with
    | some precision => cs.take precision
    | none => cs
  let padding := layout.width - cs.length
  let before := (layout.alignment.getD .left).before padding
  let fill := layout.fill.getD ' '
  if Text.Run.maxCount < layout.width then .error .tooWide
  else .ok (⟨fill, before⟩ :: Text.Run.ofChars cs ++ [⟨fill, padding - before⟩])

def ofText (layout : List Char) (cs : List Char) : Except Fault (List Text.Run) := do
  (← checkText (← read .text layout)).apply cs

end Layout

end Template

end CallByValue
