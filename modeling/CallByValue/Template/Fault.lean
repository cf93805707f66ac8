import CallByValue.Text.Quoted
/-!
# Faults of templates

What can be wrong with a template or with a field of it, and how each fault is worded. Most faults
lie in the template's own text; a few arise because a snippet lacks what a field asks for.
-/

namespace CallByValue

namespace Template

/-- What a key can pick from. -/
inductive Sequence where
  | text
  | row
deriving DecidableEq

inductive Fault where
  /-- An opening brace at the end of the template. -/
  | loneOpen
  /-- A closing brace outside a field. -/
  | loneClose
  | unclosedField
  | nestedField
  | noConversion
  | conversionNotEnded
  | unclosedLayout
  | nestedTooDeep
  | manualToAutomatic
  | automaticToManual
  | tooManyDigits
  | missing (index : Nat)
  | unknown (name : String)
  | emptyPart
  | unclosedKey
  | junkAfterKey
  | noPart (subject name : String)
  /-- A part that could be there is not. -/
  | unset (name : String)
  | notKeyed (subject : String)
  | notGeneric (subject : String)
  | noEntry (key : String)
  | keyNotNumber (sequence : Sequence)
  | keyOutside (sequence : Sequence)
  | unknownConversion (c : Char)
  | noPrecision
  | bothSeparators
  | junkInLayout (layout kind : String)
  | separatorRefused (separator style : Char)
  | unknownStyle (style : Char) (kind : String)
  | signRefused
  | spaceRefused
  | zeroSignRefused
  | alternateRefused
  | numericAlignment
  | precisionRefused
  | zeroSignInWhole
  | signOfCharacter
  | alternateCharacter
  | noCharacter
  | precisionTooBig
  | layoutRefused (kind : String)
  | tooWide
deriving DecidableEq

namespace Fault

def label : Fault → String
  | .missing _ => "IndexError"
  | .keyOutside _ => "IndexError"
  | .unknown _ => "KeyError"
  | .noPart _ _ => "AttributeError"
  | .unset _ => "AttributeError"
  | .notKeyed _ => "TypeError"
  | .notGeneric _ => "TypeError"
  | .noEntry _ => "KeyError"
  | .keyNotNumber _ => "TypeError"
  | .layoutRefused _ => "TypeError"
  | .noCharacter => "OverflowError"
  | .tooWide => "MemoryError"
  | _ => "ValueError"

/-- The shortest hexadecimal writing of a code. -/
def hexCode (n : Nat) : String :=
  "\\x" ++ String.ofList (Nat.toDigits 16 n)

/-- A character as it is, or by its code if it lies outside the codes from 33 to `last`. -/
def charText (last : Nat) (c : Char) : String :=
  if 32 < c.toNat && c.toNat ≤ last then String.singleton c else hexCode c.toNat

def text : Fault → String
  | .loneOpen => "Single '\x7b' encountered in format string"
  | .loneClose => "Single '\x7d' encountered in format string"
  | .unclosedField => "expected '\x7d' before end of string"
  | .nestedField => "unexpected '\x7b' in field name"
  | .noConversion => "end of string while looking for conversion specifier"
  | .conversionNotEnded => "expected ':' after conversion specifier"
  | .unclosedLayout => "unmatched '\x7b' in format spec"
  | .nestedTooDeep => "Max string recursion exceeded"
  | .manualToAutomatic =>
    "cannot switch from manual field specification to automatic field numbering"
  | .automaticToManual =>
    "cannot switch from automatic field numbering to manual field specification"
  | .tooManyDigits => "Too many decimal digits in format string"
  | .missing index =>
    "Replacement index " ++ toString index ++ " out of range for positional args tuple"
  | .unknown name => Text.quoted name
  | .emptyPart => "Empty attribute in format string"
  | .unclosedKey => "Missing ']' in format string"
  | .junkAfterKey => "Only '.' or '[' may follow ']' in format field specifier"
  | .noPart subject name => subject ++ " has no attribute '" ++ name ++ "'"
  | .unset name => name
  | .notKeyed subject => subject ++ " is not subscriptable"
  | .notGeneric subject => subject ++ " is not a generic class"
  | .noEntry key => key
  | .keyNotNumber .text => "string indices must be integers, not 'str'"
  | .keyNotNumber .row => "tuple indices must be integers or slices, not str"
  | .keyOutside .text => "string index out of range"
  | .keyOutside .row => "tuple index out of range"
  | .unknownConversion c => "Unknown conversion specifier " ++ charText 126 c
  | .noPrecision => "Format specifier missing precision"
  | .bothSeparators => "Cannot specify both ',' and '_'."
  | .junkInLayout layout kind =>
    "Invalid format specifier '" ++ layout ++ "' for object of type '" ++ kind ++ "'"
  | .separatorRefused separator style =>
    "Cannot specify '" ++ String.singleton separator ++ "' with '" ++ charText 127 style ++ "'."
  | .unknownStyle style kind =>
    "Unknown format code '" ++ charText 127 style ++ "' for object of type '" ++ kind ++ "'"
  | .signRefused => "Sign not allowed in string format specifier"
  | .spaceRefused => "Space not allowed in string format specifier"
  | .zeroSignRefused =>
    "Negative zero coercion (z) not allowed in string format specifier"
  | .alternateRefused => "Alternate form (#) not allowed in string format specifier"
  | .numericAlignment => "'=' alignment not allowed in string format specifier"
  | .precisionRefused => "Precision not allowed in integer format specifier"
  | .zeroSignInWhole => "Negative zero coercion (z) not allowed in integer format specifier"
  | .signOfCharacter => "Sign not allowed with integer format specifier 'c'"
  | .alternateCharacter => "Alternate form (#) not allowed with integer format specifier 'c'"
  | .noCharacter => "%c arg not in range(0x110000)"
  | .precisionTooBig => "precision too big"
  | .layoutRefused kind => "unsupported format string passed to " ++ kind ++ ".__format__"
  | .tooWide => ""

end Fault

end Template

end CallByValue
