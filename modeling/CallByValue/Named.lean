import CallByValue.Term.Basic
/-!
# Named trees

The tree that a line is a writing of, with variables still under their names. `elaborate` gives the
term it stands for: a name counts the binders up to the innermost one of that name, and a name that
no binder binds stands for its definition. Two trees are alpha-equivalent when they differ only in a
consistent choice of binder names; the relation walks both trees at once and keeps the pairs of
binders it has passed.
-/

namespace CallByValue

inductive Named where
  | var (name : String)
  | lam (param : String) (body : Named)
  | app (lhs rhs : Named)
deriving DecidableEq

namespace Named

/-- The term of a tree under the binders in `scope`, the innermost first. There is none if a name is
neither bound nor defined. -/
def elaborate (definitions : Definitions) : (scope : List String) → Named → Option Term
  | scope, .var name =>
    match scope.idxOf? name with
    | some index => some (.var index)
    | none => definitions.find? name
  | scope, .lam param body => (elaborate definitions (param :: scope) body).map (.lam param)
  | scope, .app lhs rhs => do
    let lhs ← elaborate definitions scope lhs
    let rhs ← elaborate definitions scope rhs
    return .app lhs rhs

/-- Two names that stand for the same binder in a pair of binder stacks, or are the same name and
bound by neither. -/
inductive SameVariable : List (String × String) → String → String → Prop where
  | here {binders : List (String × String)} {x y : String} : SameVariable ((x, y) :: binders) x y
  | there {binders : List (String × String)} {x y p q : String} (hx : x ≠ p) (hy : y ≠ q)
      (h : SameVariable binders x y) : SameVariable ((p, q) :: binders) x y
  | free {x : String} : SameVariable [] x x

/-- Equality of trees up to binder names, under a pair of binder stacks. -/
inductive AlphaEquiv : List (String × String) → Named → Named → Prop where
  | var {binders : List (String × String)} {x y : String} (h : SameVariable binders x y) :
      AlphaEquiv binders (.var x) (.var y)
  | lam {binders : List (String × String)} {p q : String} {b c : Named}
      (h : AlphaEquiv ((p, q) :: binders) b c) : AlphaEquiv binders (.lam p b) (.lam q c)
  | app {binders : List (String × String)} {l l' r r' : Named} (hl : AlphaEquiv binders l l')
      (hr : AlphaEquiv binders r r') : AlphaEquiv binders (.app l r) (.app l' r')

end Named

end CallByValue
