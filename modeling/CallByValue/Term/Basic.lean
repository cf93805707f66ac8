import CallByValue.NameMap
/-!
# Terms

Lambda terms in which a variable is the number of binders between its use and its own binder.
Binders keep the name they were written with, but only to be displayed: two terms that differ in
those names alone are the same term, and `unnamed` forgets the names to say so.
-/

namespace CallByValue

inductive Term where
  | var (index : Nat)
  | lam (param : String) (body : Term)
  | app (lhs rhs : Term)
deriving DecidableEq, Inhabited

namespace Term

/-- The term with every binder name erased. -/
def unnamed : Term → Term
  | .var index => .var index
  | .lam _ body => .lam "" body.unnamed
  | .app lhs rhs => .app lhs.unnamed rhs.unnamed

/-- Equality up to binder names. -/
def AlphaEq (t u : Term) : Prop :=
  t.unnamed = u.unnamed

instance (t u : Term) : Decidable (t.AlphaEq u) :=
  inferInstanceAs (Decidable (t.unnamed = u.unnamed))

/-- The variables that no binder inside the term binds, in order and with repetitions, counted from
`depth` binders below the root. At depth zero they count from the root itself. -/
def freeIndices : Term → (depth : Int) → List Nat
  | .var index, depth => if depth ≤ index then [(index - depth).toNat] else []
  | .lam _ body, depth => body.freeIndices (depth + 1)
  | .app lhs rhs, depth => lhs.freeIndices depth ++ rhs.freeIndices depth

def isClosed (t : Term) : Bool :=
  (t.freeIndices 0).isEmpty

/-- Values are exactly the abstractions: nothing is reduced under a binder. -/
def isValue : Term → Bool
  | .lam _ _ => true
  | _ => false

def isApplication : Term → Bool
  | .app _ _ => true
  | _ => false

/-- How many binders and applications lie on the longest way from the root to a variable. -/
def depth : Term → Nat
  | .var _ => 0
  | .lam _ body => body.depth + 1
  | .app lhs rhs => max lhs.depth rhs.depth + 1

/-- Deeper terms are neither written nor contracted, and evaluations nest no deeper either. -/
def maxDepth : Nat := 1000

/-- The names of all binders, outermost first. -/
def params : Term → List String
  | .var _ => []
  | .lam param body => param :: body.params
  | .app lhs rhs => lhs.params ++ rhs.params

@[simp] theorem freeIndices_unnamed (t : Term) (depth : Int) :
    t.unnamed.freeIndices depth = t.freeIndices depth := by
  induction t generalizing depth with
  | var index => rfl
  | lam param body ih => simp [unnamed, freeIndices, ih]
  | app lhs rhs ihl ihr => simp [unnamed, freeIndices, ihl, ihr]

@[simp] theorem depth_unnamed (t : Term) : t.unnamed.depth = t.depth := by
  induction t with
  | var index => rfl
  | lam param body ih => simp [unnamed, depth, ih]
  | app lhs rhs ihl ihr => simp [unnamed, depth, ihl, ihr]

theorem AlphaEq.refl (t : Term) : t.AlphaEq t :=
  rfl

theorem AlphaEq.symm {t u : Term} (h : t.AlphaEq u) : u.AlphaEq t :=
  Eq.symm h

theorem AlphaEq.trans {t u v : Term} (htu : t.AlphaEq u) (huv : u.AlphaEq v) : t.AlphaEq v :=
  Eq.trans htu huv

theorem alphaEq_var {i j : Nat} : (var i).AlphaEq (var j) ↔ i = j := by
  simp [AlphaEq, unnamed]

theorem alphaEq_lam {p q : String} {b c : Term} : (lam p b).AlphaEq (lam q c) ↔ b.AlphaEq c := by
  simp [AlphaEq, unnamed]

theorem alphaEq_app {l l' r r' : Term} :
    (app l r).AlphaEq (app l' r') ↔ l.AlphaEq l' ∧ r.AlphaEq r' := by
  simp [AlphaEq, unnamed]

end Term

/-- What a line asks for: the value of a term, or a definition of a name. -/
inductive Query where
  | term (t : Term)
  | definition (name : String) (body : Term)
deriving DecidableEq

namespace Query

def body : Query → Term
  | .term t => t
  | .definition _ body => body

def withBody : Query → Term → Query
  | .term _, t => .term t
  | .definition name _, t => .definition name t

/-- The query with every binder name erased. The defined name stays. -/
def unnamed (query : Query) : Query :=
  query.withBody query.body.unnamed

def AlphaEq (p q : Query) : Prop :=
  p.unnamed = q.unnamed

instance (p q : Query) : Decidable (p.AlphaEq q) :=
  inferInstanceAs (Decidable (p.unnamed = q.unnamed))

end Query

abbrev Definitions := NameMap Term

end CallByValue
