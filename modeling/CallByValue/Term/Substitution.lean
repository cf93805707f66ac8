import CallByValue.Fault
import CallByValue.Term.Basic
/-!
# Substitution

Contracting `(λ M) N` replaces the variable of the binder in `M` by `N` and takes the binder away.
It is done in three steps: `N` is shifted up by one, since it moves under the binder, then
substituted, and the result is shifted down by one, since the binder is gone. A shift can fail,
because moving a variable down past zero leaves nothing to refer to; the shift down of a contraction
never does, since the substitution has removed the one variable that could fall.

`instantiate` does the same in one pass, and says outright what becomes of each variable.
-/

namespace CallByValue

namespace Term

/-- The variable with the given index, which must not be negative. -/
def ofIndex (index : Int) : Except Fault Term :=
  if index < 0 then .error (.defect (.negativeIndex index)) else .ok (.var index.toNat)

/-- Adds `amount` to every variable that is free from `cutoff` on. -/
def shift (amount : Int) : Term → (cutoff : Int) → Except Fault Term
  | .var index, cutoff =>
    if cutoff ≤ index then ofIndex (index + amount) else .ok (.var index)
  | .lam param body, cutoff => do
    let body ← shift amount body (cutoff + 1)
    return .lam param body
  | .app lhs rhs, cutoff => do
    let lhs ← shift amount lhs cutoff
    let rhs ← shift amount rhs cutoff
    return .app lhs rhs

/-- Puts `value`, shifted over the binders crossed on the way, for the variable that is `depth`
binders out. -/
def substitute (value : Term) : Term → (depth : Int) → Except Fault Term
  | .var index, depth => if index = depth then shift depth value 0 else .ok (.var index)
  | .lam param body, depth => do
    let body ← substitute value body (depth + 1)
    return .lam param body
  | .app lhs rhs, depth => do
    let lhs ← substitute value lhs depth
    let rhs ← substitute value rhs depth
    return .app lhs rhs

/-- The contraction of an abstraction with the given body, applied to `value`. -/
def contract (value body : Term) : Except Fault Term := do
  let value ← shift 1 value 0
  let body ← substitute value body 0
  shift (-1) body 0

/-- Moves the variables free from `cutoff` on outwards by `amount`. -/
def lift (amount : Nat) : Term → (cutoff : Nat) → Term
  | .var index, cutoff => if cutoff ≤ index then .var (index + amount) else .var index
  | .lam param body, cutoff => .lam param (lift amount body (cutoff + 1))
  | .app lhs rhs, cutoff => .app (lift amount lhs cutoff) (lift amount rhs cutoff)

/-- Replaces the variable `depth` binders out by `value` and closes the gap it leaves: what is bound
further in stays, what is bound further out moves in by one. -/
def instantiate (value : Term) : Term → (depth : Nat) → Term
  | .var index, depth =>
    if index < depth then .var index
    else if index = depth then lift depth value 0
    else .var (index - 1)
  | .lam param body, depth => .lam param (instantiate value body (depth + 1))
  | .app lhs rhs, depth => .app (instantiate value lhs depth) (instantiate value rhs depth)

theorem shift_natCast (amount : Nat) (t : Term) (cutoff : Nat) :
    shift amount t cutoff = .ok (lift amount t cutoff) := by
  induction t generalizing cutoff with
  | var index =>
    by_cases h : cutoff ≤ index
    · have hnonneg : ¬ ((index : Int) + amount < 0) := by omega
      have hvalue : ((index : Int) + amount).toNat = index + amount := by omega
      simp [shift, lift, ofIndex, h, hnonneg, hvalue]
    · simp [shift, lift, h]
  | lam param body ih =>
    have hbody := ih (cutoff + 1)
    rw [Int.natCast_add, Int.natCast_one] at hbody
    rw [shift, lift, hbody]
    rfl
  | app lhs rhs ihl ihr =>
    rw [shift, lift, ihl, ihr]
    rfl

theorem lift_zero (t : Term) (cutoff : Nat) : lift 0 t cutoff = t := by
  induction t generalizing cutoff with
  | var index => simp [lift]
  | lam param body ih => simp [lift, ih]
  | app lhs rhs ihl ihr => simp [lift, ihl, ihr]

theorem shift_zero (t : Term) (cutoff : Nat) : shift 0 t cutoff = .ok t := by
  have h := shift_natCast 0 t cutoff
  rwa [lift_zero] at h

end Term

end CallByValue
