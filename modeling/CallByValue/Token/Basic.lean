/-!
# Tokens

A line is made of binder marks, dots, equals signs, parentheses and identifiers. A token also
carries the position at which it starts, counted in code points from the start of the line. Every
token list ends with an end-of-input token that stands just behind the line.
-/

namespace CallByValue

inductive TokenKind where
  | lambda
  | dot
  | equal
  | lparen
  | rparen
  | ident
  | eof
deriving DecidableEq

inductive Lexeme where
  | lambda
  | dot
  | equal
  | lparen
  | rparen
  | ident (name : String)
  | eof
deriving DecidableEq

structure Token where
  lexeme : Lexeme
  pos : Nat
deriving DecidableEq

namespace TokenKind

def spelling : TokenKind → String
  | .lambda => "\\"
  | .dot => "."
  | .equal => "="
  | .lparen => "("
  | .rparen => ")"
  | .ident => "identifier"
  | .eof => "end of input"

def quotedSpelling (kind : TokenKind) : String :=
  "'" ++ kind.spelling ++ "'"

/-- What a diagnostic says was expected. -/
def expectation : TokenKind → String
  | .ident => TokenKind.ident.spelling
  | kind => kind.quotedSpelling

end TokenKind

namespace Lexeme

def kind : Lexeme → TokenKind
  | .lambda => .lambda
  | .dot => .dot
  | .equal => .equal
  | .lparen => .lparen
  | .rparen => .rparen
  | .ident _ => .ident
  | .eof => .eof

def described : Lexeme → String
  | .ident name => "'" ++ name ++ "'"
  | .eof => TokenKind.eof.spelling
  | lexeme => lexeme.kind.quotedSpelling

def width : Lexeme → Nat
  | .ident name => max 1 name.length
  | _ => 1

end Lexeme

namespace Token

def kind (token : Token) : TokenKind :=
  token.lexeme.kind

def name? (token : Token) : Option String :=
  match token.lexeme with
  | .ident name => some name
  | _ => none

/-- The same token, found `distance` characters further on. -/
def moved (distance : Nat) (token : Token) : Token :=
  { token with pos := token.pos + distance }

end Token

end CallByValue
