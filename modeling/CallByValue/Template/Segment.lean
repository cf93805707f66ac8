import CallByValue.Template.Fault
/-!
# Segments of a template

A template is cut into literal characters and fields. A field stands in braces and has a name, then
an optional conversion after an exclamation mark and an optional layout after a colon. A layout may
hold fields of its own, so its end is the closing brace that has no opening one inside. In a name,
what stands in brackets is not looked at. Doubling a brace takes it literally.

Cutting goes from left to right, and a malformed part ends it: what comes before is still filled, so
that the first fault in the template is the one reported.
-/

namespace CallByValue

namespace Template

structure Field where
  name : List Char
  conversion : Option Char
  layout : List Char

inductive Segment where
  | literal (c : Char)
  | field (field : Field)
  | malformed (fault : Fault)

def openBrace : Char := '\x7b'

def closeBrace : Char := '\x7d'

/-- Where in a template the reader stands. What was read of a part is kept backwards. -/
inductive Place where
  | outside
  | name (read : List Char)
  /-- Between brackets in a name. -/
  | key (read : List Char)
  /-- After the exclamation mark. -/
  | conversion (name : List Char)
  | converted (name : List Char) (c : Char)
  /-- In a layout, inside so many of its own braces. -/
  | layout (name : List Char) (conversion : Option Char) (depth : Nat) (read : List Char)

def segments : Place → List Char → List Segment
  | .outside, [] => []
  | .outside, [c] =>
    if c = openBrace then [.malformed .loneOpen]
    else if c = closeBrace then [.malformed .loneClose]
    else [.literal c]
  | .outside, c :: d :: cs =>
    if c = openBrace then
      if d = openBrace then .literal c :: segments .outside cs
      else segments (.name []) (d :: cs)
    else if c = closeBrace then
      if d = closeBrace then .literal c :: segments .outside cs else [.malformed .loneClose]
    else .literal c :: segments .outside (d :: cs)
  | .name _, [] => [.malformed .unclosedField]
  | .name read, c :: cs =>
    if c = openBrace then [.malformed .nestedField]
    else if c = closeBrace then .field ⟨read.reverse, none, []⟩ :: segments .outside cs
    else if c = '[' then segments (.key (c :: read)) cs
    else if c = '!' then segments (.conversion read.reverse) cs
    else if c = ':' then segments (.layout read.reverse none 0 []) cs
    else segments (.name (c :: read)) cs
  | .key _, [] => [.malformed .unclosedField]
  | .key read, c :: cs =>
    if c = ']' then segments (.name (c :: read)) cs else segments (.key (c :: read)) cs
  | .conversion _, [] => [.malformed .noConversion]
  | .conversion name, c :: cs => segments (.converted name c) cs
  | .converted _ _, [] => [.malformed .unclosedLayout]
  | .converted name conversion, c :: cs =>
    if c = closeBrace then .field ⟨name, some conversion, []⟩ :: segments .outside cs
    else if c = ':' then segments (.layout name (some conversion) 0 []) cs
    else [.malformed .conversionNotEnded]
  | .layout _ _ _ _, [] => [.malformed .unclosedLayout]
  | .layout name conversion depth read, c :: cs =>
    if c = openBrace then segments (.layout name conversion (depth + 1) (c :: read)) cs
    else if c = closeBrace then
      match depth with
      | 0 => .field ⟨name, conversion, read.reverse⟩ :: segments .outside cs
      | depth + 1 => segments (.layout name conversion depth (c :: read)) cs
    else segments (.layout name conversion depth (c :: read)) cs

end Template

end CallByValue
