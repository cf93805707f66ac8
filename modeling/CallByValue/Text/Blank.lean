/-!
# Blank characters

Which characters separate the words of a line. Blanks are the white space characters of Unicode
together with the four information separators U+001C to U+001F; zero width characters such as U+200B
and the byte order mark U+FEFF are not blank.
-/

namespace CallByValue

namespace Text

def isBlank (c : Char) : Bool :=
  let n := c.toNat
  (0x09 ≤ n && n ≤ 0x0D) || (0x1C ≤ n && n ≤ 0x20) || n == 0x85 || n == 0xA0 || n == 0x1680 ||
    (0x2000 ≤ n && n ≤ 0x200A) || n == 0x2028 || n == 0x2029 || n == 0x202F || n == 0x205F ||
    n == 0x3000

def dropBlank (cs : List Char) : List Char :=
  cs.dropWhile isBlank

def dropBlankEnd (cs : List Char) : List Char :=
  (cs.reverse.dropWhile isBlank).reverse

def strip (s : String) : String :=
  String.ofList (dropBlankEnd (dropBlank s.toList))

def stripEnd (s : String) : String :=
  String.ofList (dropBlankEnd s.toList)

theorem isBlank_of_isWhitespace {c : Char} (h : c.isWhitespace = true) : isBlank c = true := by
  simp only [Char.isWhitespace, Bool.or_eq_true, decide_eq_true_eq] at h
  rcases h with (((rfl | rfl) | rfl) | rfl) <;> decide

end Text

end CallByValue
