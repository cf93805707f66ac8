import CallByValue.Fault
import CallByValue.Text.Blank
import CallByValue.Token.Basic
/-!
# Cutting a line into tokens

Blanks separate tokens and mean nothing else. An identifier is a run of ASCII letters that cannot be
made longer, and a binder mark is a backslash or a λ. The first character that is none of these, nor
a dot, an equals sign or a parenthesis, is a fault.
-/

namespace CallByValue

namespace Token

def isLetter (c : Char) : Bool :=
  ('a' ≤ c && c ≤ 'z') || ('A' ≤ c && c ≤ 'Z')

def isWord (s : String) : Bool :=
  !s.isEmpty && s.toList.all isLetter

def punctuation? : Char → Option Lexeme
  | '\\' => some .lambda
  | 'λ' => some .lambda
  | '.' => some .dot
  | '=' => some .equal
  | '(' => some .lparen
  | ')' => some .rparen
  | _ => none

/-- A character that belongs to no token, and where it stands. -/
structure Unrecognized where
  char : Char
  pos : Nat
deriving DecidableEq

/-- The tokens of the characters that start at position `pos`. -/
def scan (pos : Nat) (cs : List Char) : Except Unrecognized (List Token) :=
  match cs with
  | [] => .ok [⟨.eof, pos⟩]
  | c :: cs =>
    if Text.isBlank c then scan (pos + 1) cs
    else if isLetter c then
      let tail := cs.takeWhile isLetter
      match scan (pos + 1 + tail.length) (cs.dropWhile isLetter) with
      | .ok tokens => .ok (⟨.ident (String.ofList (c :: tail)), pos⟩ :: tokens)
      | .error fault => .error fault
    else match punctuation? c with
      | some lexeme =>
        match scan (pos + 1) cs with
        | .ok tokens => .ok (⟨lexeme, pos⟩ :: tokens)
        | .error fault => .error fault
      | none => .error ⟨c, pos⟩
termination_by cs.length
decreasing_by
  · simp
  · exact Nat.lt_succ_of_le (List.dropWhile_suffix isLetter).length_le
  · simp

end Token

def tokenize (expr : String) : Except Fault (List Token) :=
  match Token.scan 0 expr.toList with
  | .ok tokens => .ok tokens
  | .error fault => .error (.diagnostic (.unrecognized expr fault.char fault.pos))

end CallByValue
