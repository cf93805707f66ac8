import CallByValue.Text.Style
/-!
# Terminal codes

The style of a terminal that shows colours: escape codes in front of the text and a reset code behind
it. The colour stands next to the text and the weight in front of the colour.
-/

namespace CallByValue

namespace Text

def escape (code : String) : String :=
  "\x1b[" ++ code ++ "m"

def Colour.code : Colour → String
  | .red => escape "31"
  | .magenta => escape "35"

def Weight.code : Weight → String
  | .bold => escape "1"
  | .dark => escape "2"

def Style.terminal : Style where
  apply colour weight text := weight.code ++ (colour.elim "" Colour.code ++ text) ++ escape "0"

end Text

end CallByValue
