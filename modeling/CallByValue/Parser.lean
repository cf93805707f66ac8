import CallByValue.Term.Basic
import CallByValue.Token.Lexer
/-!
# Reading queries

A query is a definition or a term, and a term is read by recursive descent over the tokens of a
line:

* a query is an identifier, an equals sign and a term, or just a term;
* a term is a binder mark, an identifier, a dot and a term, or an application;
* an application is one or more atoms, and associates to the left;
* an atom is a term in parentheses, or an identifier.

Names are resolved on the way. One that an enclosing binder binds becomes its distance to the
innermost such binder, and any other must be defined and stands for the term it was defined as.

A parser works on the tokens it has not read yet, and a fault leaves them where it found them. The
tokens end in an end-of-input token which no production reads, so there is always a current token;
only a caller that reads that last token itself can run out of them.

`parse` reads lines of any nesting. `parseBounded` reads the same queries on a stack that holds only
so many frames, and refuses lines whose binders and parentheses nest deeper than that. A row of
operands is no nesting, so the terms it reads can still be of any depth.
-/

namespace CallByValue

/-- A parser reads tokens from the front of a list. -/
abbrev Parser (α : Type) := EStateM Fault (List Token) α

/-- What a line is read against: its text, for diagnostics, and the definitions in force. -/
structure Source where
  expr : String
  definitions : Definitions

namespace Parser

def current : Parser Token := do
  match ← get with
  | [] => throw (.defect .outOfTokens)
  | token :: _ => return token

def advance : Parser Unit :=
  modify List.tail

def next (kind : TokenKind) : Parser Bool := do
  return (← current).kind = kind

/-- Moves past the current token if it is of the given kind, and says whether it was. -/
def skip (kind : TokenKind) : Parser Bool := do
  if ← next kind then
    advance
    return true
  else
    return false

variable (source : Source)

/-- Blames the current token for not being what was expected. -/
def fail {α : Type} (expected : String) : Parser α := do
  let token ← current
  throw (.diagnostic (.unexpected source.expr expected token.lexeme.described token.pos
    token.lexeme.width))

def expect (kind : TokenKind) : Parser Token := do
  let token ← current
  if token.kind = kind then
    advance
    return token
  else
    fail source kind.expectation

def identifier : Parser (String × Nat) := do
  let token ← current
  match token.lexeme with
  | .ident name =>
    advance
    return (name, token.pos)
  | _ => fail source TokenKind.ident.expectation

/-- The term that a name at position `pos` stands for under the binders in `scope`, the innermost
first. -/
def resolve (scope : List String) (name : String) (pos : Int) : Parser Term :=
  match scope.idxOf? name with
  | some index => return .var index
  | none =>
    match source.definitions.find? name with
    | some t => return t
    | none => throw (.diagnostic (.unbound source.expr name pos))

/-- Reads an atom, or nothing if none starts here. Terms in parentheses are read by `inner`. -/
def atomWith (inner : Parser Term) (scope : List String) : Parser (Option Term) := do
  if ← skip .lparen then
    let t ← inner
    let _ ← expect source .rparen
    return some t
  else if ← next .ident then
    let (name, pos) ← identifier source
    let t ← resolve source scope name pos
    return some t
  else
    return none

/-- Applies `lhs` to every atom that follows, of which there are fewer than `bound`. -/
def operands (atom : Parser (Option Term)) : (bound : Nat) → (lhs : Term) → Parser Term
  | 0, _ => throw .outOfFuel
  | bound + 1, lhs => do
    match ← atom with
    | none => return lhs
    | some rhs => operands atom bound (.app lhs rhs)

def applicationWith (atom : Parser (Option Term)) : Parser Term := do
  match ← atom with
  | none => fail source "term"
  | some lhs => operands atom ((← get).length + 1) lhs

/-- Reads a term in a stack of `room` frames. The body of an abstraction is one frame further in,
and a term in parentheses three, since an application and an atom lie between it and the term around
it. -/
def termWithin : (room : Nat) → (scope : List String) → Parser Term
  | 0, _ => throw .depthExceeded
  | room + 1, scope => do
    if ← skip .lambda then
      let (param, _) ← identifier source
      let _ ← expect source .dot
      let body ← termWithin room (param :: scope)
      return .lam param body
    else
      let inner : Parser Term :=
        match room with
        | deeper + 2 => termWithin deeper scope
        | _ => throw .depthExceeded
      applicationWith source (atomWith source inner scope)

/-- Reads a term. Every level of nesting takes a token and at most three frames, so the tokens left
bound the frames. -/
def term (scope : List String) : Parser Term := do
  termWithin source (3 * (← get).length + 1) scope

def atom (scope : List String) : Parser (Option Term) :=
  atomWith source (term source scope) scope

def application (scope : List String) : Parser Term :=
  applicationWith source (atom source scope)

/-- Reads a definition, or nothing if no equals sign follows the first name. Its term is read by
`inner`. -/
def definitionWith (inner : Parser Term) : Parser (Option Query) := do
  let (name, _) ← identifier source
  if ← skip .equal then
    let body ← inner
    return some (.definition name body)
  else
    return none

/-- Reads a definition if one starts here, and nothing otherwise. -/
def definitionWith? (inner : Parser Term) : Parser (Option Query) := do
  if ← next .ident then
    let start ← get
    match ← definitionWith source inner with
    | some query => return some query
    | none =>
      set start
      return none
  else
    return none

/-- Reads everything up to the end of input as one query. -/
def queryWith (inner : Parser Term) : Parser Query := do
  let result ←
    match ← definitionWith? source inner with
    | some result => pure result
    | none => Query.term <$> inner
  if ← next .eof then
    return result
  else
    fail source "end of input"

def definition : Parser (Option Query) :=
  definitionWith source (term source [])

def query : Parser Query :=
  queryWith source (term source [])

/-- As many frames as the terms of a line may take. Writing a term takes one for each of its levels,
so there are terms that can be written and not read again. -/
def maxFrames : Nat := 1000

end Parser

/-- The query that a line stands for, with its term read by `inner`. -/
def parseWith (inner : Source → Parser Term) (definitions : Definitions) (expr : String) :
    Except Fault Query :=
  match tokenize expr with
  | .error fault => .error fault
  | .ok tokens =>
    let source : Source := ⟨expr, definitions⟩
    match Parser.queryWith source (inner source) tokens with
    | .ok query _ => .ok query
    | .error fault _ => .error fault

def parse (definitions : Definitions) (expr : String) : Except Fault Query :=
  parseWith (Parser.term · []) definitions expr

/-- The query that a line stands for, unless the line nests too deep. -/
def parseBounded (definitions : Definitions) (expr : String) : Except Fault Query :=
  parseWith (Parser.termWithin · Parser.maxFrames []) definitions expr

end CallByValue
