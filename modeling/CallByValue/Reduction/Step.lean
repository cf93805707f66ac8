import CallByValue.Term.Substitution
/-!
# One step of evaluation

Call-by-value reduction, one contraction at a time: the operator is reduced first, then the operand,
and an application is contracted once neither can move and the operator is an abstraction. Nothing
is reduced under a binder. A term that cannot move is an abstraction, a variable, or an application
of such a term that is not an abstraction.
-/

namespace CallByValue

namespace Term

def step : Term → Option Term
  | .var _ => none
  | .lam _ _ => none
  | .app lhs rhs =>
    match lhs.step with
    | some lhs => some (.app lhs rhs)
    | none =>
      match rhs.step with
      | some rhs => some (.app lhs rhs)
      | none =>
        match lhs with
        | .lam _ body => some (instantiate rhs body 0)
        | _ => none

/-- The contractum of the next redex. -/
def contractum : Term → Option Term
  | .var _ => none
  | .lam _ _ => none
  | .app lhs rhs =>
    match lhs.contractum with
    | some t => some t
    | none =>
      match rhs.contractum with
      | some t => some t
      | none =>
        match lhs with
        | .lam _ body => some (instantiate rhs body 0)
        | _ => none

/-- The term after the given number of steps, if it can take that many. -/
def steps : Nat → Term → Option Term
  | 0, t => some t
  | count + 1, t => t.step.bind (steps count)

/-- The contracta of the first steps, in order. -/
def contracta : (count : Nat) → Term → List Term
  | 0, _ => []
  | count + 1, t =>
    match t.contractum, t.step with
    | some c, some u => c :: contracta count u
    | _, _ => []

end Term

end CallByValue
