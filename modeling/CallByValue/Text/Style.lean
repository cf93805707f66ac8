/-!
# Styles

Parts of what is printed stand out: by their weight, and some by a colour as well. What becomes of a
text that is to stand out is not said here, since it depends on the terminal. It is what a style
says.
-/

namespace CallByValue

namespace Text

inductive Colour where
  | red
  | magenta
deriving DecidableEq

inductive Weight where
  | bold
  | dark
deriving DecidableEq

/-- What becomes of a text with a weight, and with a colour if one is given. -/
structure Style where
  apply : Option Colour → Weight → String → String

namespace Style

variable (style : Style)

def bold (text : String) : String :=
  style.apply none .bold text

def dark (text : String) : String :=
  style.apply none .dark text

def boldIn (colour : Colour) (text : String) : String :=
  style.apply (some colour) .bold text

end Style

end Text

end CallByValue
