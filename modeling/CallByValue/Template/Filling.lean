import CallByValue.Template.Figures
import CallByValue.Template.Part
import CallByValue.Template.Segment
/-!
# Filling templates

The fields of a template are filled with snippets. A field without a name takes the snippets in turn
and one with a number takes the snippet of that number, but one template may not use both. A name
may go on with dots and brackets that lead to parts of the snippet. What they lead to is then quoted
if a conversion asks for it, and laid out, which only texts and numbers can be. The fields inside a
layout are filled first, and they count along with the others.

Doubled braces come out single, so `escape` doubles every brace of a text that is to be taken
literally.
-/

namespace CallByValue

namespace Template

/-- How the fields met so far were numbered. -/
inductive Numbering where
  | undecided
  | automatic (next : Nat)
  | manual

/-- The number of the snippet that a field with the given name asks for. -/
def Numbering.index (numbering : Numbering) (name : List Char) :
    Except Fault (Nat × Numbering) :=
  match name, numbering with
  | [], .undecided => .ok (0, .automatic 1)
  | [], .automatic next => .ok (next, .automatic (next + 1))
  | [], .manual => .error .manualToAutomatic
  | name, numbering =>
    match Text.leadingWord? name, numbering with
    | none, _ => .error .tooManyDigits
    | some (_, _ :: _), _ => .error (.unknown (String.ofList name))
    | some (_, []), .automatic _ => .error .automaticToManual
    | some (index, []), _ => .ok (index, .manual)

/-- A dot or a bracket ends the first part of a name. -/
def isPartMark (c : Char) : Bool :=
  c = '.' || c = '['

/-- Where in the rest of a name the reader stands. What was read of a part is kept backwards. -/
inductive Step where
  | start
  | name (read : List Char)
  | key (read : List Char)

/-- A named part, which must have a name. -/
def followName (part : Part) (name : List Char) : Except Fault Part :=
  if name.isEmpty then .error .emptyPart else part.named (String.ofList name)

def followKey (part : Part) (key : List Char) : Except Fault Part :=
  if key.isEmpty then .error .emptyPart else part.keyed key

/-- Follows the rest of a name from part to part. -/
def follow : Step → Part → (path : List Char) → Except Fault Part
  | .start, part, [] => .ok part
  | .start, part, c :: path =>
    if c = '.' then follow (.name []) part path
    else if c = '[' then follow (.key []) part path
    else .error .junkAfterKey
  | .name read, part, [] => followName part read.reverse
  | .name read, part, c :: path =>
    if c = '.' then do
      let part ← followName part read.reverse
      follow (.name []) part path
    else if c = '[' then do
      let part ← followName part read.reverse
      follow (.key []) part path
    else follow (.name (c :: read)) part path
  | .key _, _, [] => .error .unclosedKey
  | .key read, part, c :: path =>
    if c = ']' then do
      let part ← followKey part read.reverse
      follow .start part path
    else follow (.key (c :: read)) part path

/-- Writes a part as a conversion asks for. The zero character asks for none. -/
def convert (part : Part) : (conversion : Option Char) → Except Fault Part
  | none => .ok part
  | some '\x00' => .ok part
  | some 's' => .ok (.text part.display)
  | some 'r' => .ok (.text part.quoted)
  | some 'a' => .ok (.text (Text.inASCII part.quoted))
  | some c => .error (.unknownConversion c)

/-- A part in its layout, where nothing at all asks for none. -/
def layOut (part : Part) (layout : List Char) : Except Fault (List Text.Run) :=
  if layout.isEmpty then .ok (Text.Run.ofChars part.display)
  else match part with
    | .text cs => Layout.ofText layout cs
    | .number n => Figures.layOut .number layout n
    | .truth b => Figures.layOut .truth layout b.toNat
    | part => .error (.layoutRefused part.kindOf.label)

/-- A layout that was itself filled, unless it is too long to be read. -/
def layoutText (runs : List Text.Run) : Except Fault (List Char) :=
  if runs.all Text.Run.isWritten then .ok (Text.Run.expand runs) else .error .tooWide

/-- What a field is filled with. The fields in its layout are filled by `expand`. -/
def Field.fill (field : Field) (snippets : List String) (numbering : Numbering)
    (expand : Numbering → List Char → Except Fault (List Text.Run × Numbering)) :
    Except Fault (List Text.Run × Numbering) := do
  let (index, numbering) ← numbering.index (field.name.takeWhile (!isPartMark ·))
  match snippets[index]? with
  | none => .error (.missing index)
  | some snippet =>
    let part ← follow .start (.text snippet.toList) (field.name.dropWhile (!isPartMark ·))
    let part ← convert part field.conversion
    if field.layout.contains openBrace then
      let (runs, numbering) ← expand numbering field.layout
      let layout ← layoutText runs
      return (← layOut part layout, numbering)
    else return (← layOut part field.layout, numbering)

def fillSegments (snippets : List String)
    (expand : Numbering → List Char → Except Fault (List Text.Run × Numbering)) :
    Numbering → List Segment → Except Fault (List Text.Run × Numbering)
  | numbering, [] => .ok ([], numbering)
  | numbering, .literal c :: rest => do
    let (runs, numbering) ← fillSegments snippets expand numbering rest
    return (⟨c, 1⟩ :: runs, numbering)
  | numbering, .field field :: rest => do
    let (filled, numbering) ← field.fill snippets numbering expand
    let (runs, numbering) ← fillSegments snippets expand numbering rest
    return (filled ++ runs, numbering)
  | _, .malformed fault :: _ => .error fault

/-- Fills a template whose fields nest less than `depth` deep. -/
def fillWithin (snippets : List String) :
    (depth : Nat) → Numbering → List Char → Except Fault (List Text.Run × Numbering)
  | 0, _, _ => .error .nestedTooDeep
  | depth + 1, numbering, cs =>
    fillSegments snippets (fillWithin snippets depth) numbering (segments .outside cs)

/-- A field may hold fields in its layout, and those may hold none. -/
def maxNesting : Nat := 2

/-- The filling of a template, with padding as runs that are only counted. -/
def fillRuns (template : String) (snippets : List String) : Except Fault (List Text.Run) :=
  (fillWithin snippets maxNesting .undecided template.toList).map Prod.fst

def fill (template : String) (snippets : List String) : Except Fault String :=
  (fillRuns template snippets).map fun runs => String.ofList (Text.Run.expand runs)

def escapeChar (c : Char) : List Char :=
  if c = openBrace || c = closeBrace then [c, c] else [c]

/-- The template whose filling is the given text. -/
def escape (text : String) : String :=
  String.ofList (text.toList.flatMap escapeChar)

end Template

end CallByValue
