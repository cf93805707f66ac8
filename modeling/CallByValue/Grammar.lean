import CallByValue.Named
import CallByValue.Token.Basic
/-!
# The grammar

Which rows of lexemes are terms and queries, and of which named tree each is a writing. The rules
are those that the parser follows, but they say nothing about how to follow them: where to split a
row is left open, and no rule looks at what comes next.
-/

namespace CallByValue

namespace Grammar

mutual

inductive IsTerm : List Lexeme → Named → Prop where
  | lam {param : String} {lexemes : List Lexeme} {body : Named} (h : IsTerm lexemes body) :
      IsTerm (.lambda :: .ident param :: .dot :: lexemes) (.lam param body)
  | application {lexemes : List Lexeme} {tree : Named} (h : IsApplication lexemes tree) :
      IsTerm lexemes tree

inductive IsApplication : List Lexeme → Named → Prop where
  | atom {lexemes : List Lexeme} {tree : Named} (h : IsAtom lexemes tree) :
      IsApplication lexemes tree
  | app {left right : List Lexeme} {lhs rhs : Named} (hl : IsApplication left lhs)
      (hr : IsAtom right rhs) : IsApplication (left ++ right) (.app lhs rhs)

inductive IsAtom : List Lexeme → Named → Prop where
  | ident {name : String} : IsAtom [.ident name] (.var name)
  | paren {lexemes : List Lexeme} {tree : Named} (h : IsTerm lexemes tree) :
      IsAtom (.lparen :: lexemes ++ [.rparen]) tree

end

/-- A query before its names are resolved: a tree, and the name it is to define, if any. -/
structure NamedQuery where
  name : Option String
  tree : Named

/-- What a row of lexemes asks for. -/
inductive IsQuery : List Lexeme → NamedQuery → Prop where
  | definition {name : String} {lexemes : List Lexeme} {tree : Named} (h : IsTerm lexemes tree) :
      IsQuery (.ident name :: .equal :: lexemes) ⟨some name, tree⟩
  | term {lexemes : List Lexeme} {tree : Named} (h : IsTerm lexemes tree) :
      IsQuery lexemes ⟨none, tree⟩

/-- The query that a named one stands for, if its names can be resolved. -/
def NamedQuery.elaborate (definitions : Definitions) (query : NamedQuery) : Option Query :=
  (query.tree.elaborate definitions []).map fun t =>
    match query.name with
    | some name => .definition name t
    | none => .term t

end Grammar

end CallByValue
