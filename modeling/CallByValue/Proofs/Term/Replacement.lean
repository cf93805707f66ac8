import CallByValue.Proofs.Term.Contraction
import Mathlib.Logic.Function.Iterate
/-!
# A contraction is a substitution

The textbook way to substitute in a term without names replaces all of its free variables at once: an
assignment says what each of them becomes, and on the way under a binder it is moved along, so that
the new variable stands for itself and nothing that was put in is caught. A contraction is one such
replacement, which puts the value in for the first variable and lets every other one fall by one.

The contraction that is carried out never names an assignment. It counts the binders it has crossed,
and after `depth` of them the assignment it stands for is the first one moved along `depth` times.
-/

namespace CallByValue

namespace Term

/-- What the free variables become, seen from one binder further in. -/
def underBinder (assigned : Nat → Term) : Nat → Term
  | 0 => .var 0
  | index + 1 => lift 1 (assigned index) 0

/-- Replaces all free variables at once. -/
def replace : (assigned : Nat → Term) → Term → Term
  | assigned, .var index => assigned index
  | assigned, .lam param body => .lam param (replace (underBinder assigned) body)
  | assigned, .app lhs rhs => .app (replace assigned lhs) (replace assigned rhs)

/-- The first variable becomes `value`, and the binder it belonged to is gone. -/
def binderGone (value : Term) : Nat → Term
  | 0 => value
  | index + 1 => .var index

/-- After `depth` binders the first `depth` variables stand for themselves. -/
theorem iterate_underBinder (assigned : Nat → Term) (depth index : Nat) :
    (underBinder^[depth] assigned) index
      = if index < depth then .var index else lift depth (assigned (index - depth)) 0 := by
  induction depth generalizing index with
  | zero => exact (lift_zero (assigned index) 0).symm
  | succ depth ih =>
    rw [Function.iterate_succ_apply']
    cases index with
    | zero => rw [if_pos (Nat.succ_pos depth), underBinder]
    | succ index =>
      rw [underBinder, ih, Nat.succ_sub_succ]
      by_cases hlt : index < depth
      · rw [if_pos hlt, if_pos (Nat.succ_lt_succ hlt), lift, if_pos (Nat.zero_le index)]
      · rw [if_neg hlt, if_neg (by omega), lift_lift, Nat.add_comm]

theorem instantiate_eq_replace (value body : Term) (depth : Nat) :
    instantiate value body depth = body.replace (underBinder^[depth] (binderGone value)) := by
  induction body generalizing depth with
  | var index =>
    rw [instantiate, replace, iterate_underBinder]
    rcases Nat.lt_trichotomy index depth with hlt | rfl | hgt
    · rw [if_pos hlt, if_pos hlt]
    · rw [if_neg (Nat.lt_irrefl index), if_neg (Nat.lt_irrefl index), if_pos rfl, Nat.sub_self,
        binderGone]
    · obtain ⟨further, rfl⟩ : ∃ further, index = depth + further + 1 :=
        ⟨index - depth - 1, by omega⟩
      have hfurther : depth + further + 1 - depth = further + 1 := by omega
      rw [if_neg (by omega), if_neg (by omega), if_neg (by omega), hfurther, binderGone, lift,
        if_pos (Nat.zero_le further), Nat.add_sub_cancel, Nat.add_comm]
  | lam param body ih => rw [instantiate, replace, ih, Function.iterate_succ_apply']
  | app lhs rhs ihl ihr => rw [instantiate, replace, ihl, ihr]

theorem freeIndices_lift (amount : Nat) (t : Term) (cutoff : Nat) :
    (lift amount t cutoff).freeIndices cutoff = (t.freeIndices cutoff).map (· + amount) := by
  induction t generalizing cutoff with
  | var index =>
    by_cases hfree : cutoff ≤ index
    · have hmoved : (cutoff : Int) ≤ (index + amount : Nat) := by omega
      have hstill : (cutoff : Int) ≤ index := by omega
      have hcount : ((index + amount : Nat) - cutoff : Int).toNat
          = (index - cutoff : Int).toNat + amount := by
        omega
      rw [lift, if_pos hfree, freeIndices, freeIndices, if_pos hmoved, if_pos hstill, hcount]
      rfl
    · have hbound : ¬ (cutoff : Int) ≤ index := by omega
      rw [lift, if_neg hfree, freeIndices, if_neg hbound]
      rfl
  | lam param body ih =>
    have hbody := ih (cutoff + 1)
    rw [Int.natCast_add, Int.natCast_one] at hbody
    rw [lift, freeIndices, freeIndices, hbody]
  | app lhs rhs ihl ihr => rw [lift, freeIndices, freeIndices, List.map_append, ihl, ihr]

theorem freeIndices_lift_add (amount : Nat) (t : Term) (cutoff : Nat) :
    (lift amount t cutoff).freeIndices (cutoff + amount : Nat) = t.freeIndices cutoff := by
  induction t generalizing cutoff with
  | var index =>
    by_cases hfree : cutoff ≤ index
    · have hmoved : ((cutoff + amount : Nat) : Int) ≤ (index + amount : Nat) := by omega
      have hstill : (cutoff : Int) ≤ index := by omega
      have hcount : ((index + amount : Nat) - (cutoff + amount : Nat) : Int)
          = (index - cutoff : Int) := by
        omega
      rw [lift, if_pos hfree, freeIndices, freeIndices, if_pos hmoved, if_pos hstill, hcount]
    · have hbound : ¬ (cutoff : Int) ≤ index := by omega
      have hbelow : ¬ ((cutoff + amount : Nat) : Int) ≤ index := by omega
      rw [lift, if_neg hfree, freeIndices, freeIndices, if_neg hbound, if_neg hbelow]
  | lam param body ih =>
    have hbody := ih (cutoff + 1)
    rw [Nat.add_right_comm, Int.natCast_succ, Int.natCast_succ] at hbody
    rw [lift, freeIndices, freeIndices, hbody]
  | app lhs rhs ihl ihr => rw [lift, freeIndices, freeIndices, ihl, ihr]

/-- In the place of each free variable stand those of the term that it becomes. -/
theorem freeIndices_instantiate (value body : Term) (depth : Nat) :
    (instantiate value body depth).freeIndices depth
      = (body.freeIndices depth).flatMap fun index => (binderGone value index).freeIndices 0 := by
  induction body generalizing depth with
  | var index =>
    rcases Nat.lt_trichotomy index depth with hlt | rfl | hgt
    · have hbound : ¬ (depth : Int) ≤ index := by omega
      rw [instantiate, if_pos hlt, freeIndices, if_neg hbound]
      rfl
    · have hmoved := freeIndices_lift_add index value 0
      rw [Nat.zero_add] at hmoved
      rw [instantiate, if_neg (Nat.lt_irrefl index), if_pos rfl, hmoved, freeIndices,
        if_pos (Int.le_refl _), Int.sub_self]
      exact (List.flatMap_singleton _ _).symm
    · have hfree : (depth : Int) ≤ index := by omega
      have hstill : (depth : Int) ≤ (index - 1 : Nat) := by omega
      have hcount : (index - depth : Int).toNat = ((index - 1 : Nat) - depth : Int).toNat + 1 := by
        omega
      rw [instantiate, if_neg (by omega), if_neg (by omega), freeIndices, freeIndices,
        if_pos hstill, if_pos hfree, List.flatMap_singleton, hcount, binderGone, freeIndices,
        if_pos (Int.natCast_nonneg _), Int.sub_zero, Int.toNat_natCast]
  | lam param body ih =>
    have hbody := ih (depth + 1)
    rw [Int.natCast_add, Int.natCast_one] at hbody
    rw [instantiate, freeIndices, freeIndices, hbody]
  | app lhs rhs ihl ihr =>
    rw [instantiate, freeIndices, freeIndices, List.flatMap_append, ihl, ihr]

/-- **A contraction is capture-avoiding substitution.** Shifting up, substituting and shifting down
never fails. It comes to one pass that keeps the variables bound further in, puts the value in for
the variable of the binder that is gone, with the free variables of the value raised by the binders
crossed so far, and lowers the variables bound further out; names of binders stay. And that pass is
the simultaneous replacement of all free variables. -/
theorem contract_substitutes (value body : Term) :
    contract value body = .ok (instantiate value body 0) ∧
    (∀ depth : Nat, (lift depth value 0).params = value.params ∧
      (lift depth value 0).freeIndices 0 = (value.freeIndices 0).map (· + depth)) ∧
    instantiate value body 0 = body.replace (binderGone value) := by
  refine ⟨contract_eq value body, ?_, instantiate_eq_replace value body 0⟩
  intro depth
  exact ⟨params_lift depth value 0, freeIndices_lift depth value 0⟩

/-- Under a binder of its own name the value keeps its free variable, and the variable that belonged
to a binder further out falls. -/
example : contract (.app (.var 3) (.lam "x" (.var 0)))
    (.lam "x" (.app (.app (.var 0) (.var 1)) (.var 7)))
      = .ok (.lam "x" (.app (.app (.var 0) (.app (.var 4) (.lam "x" (.var 0)))) (.var 6))) := by
  rfl

/-- **The free variables of a contraction, one by one.** Those of the body stand in their order. In
the place of every use of the binder that is gone stand all those of the value, in theirs, and every
other one is counted from one binder less. None is caught, lost or made up. -/
theorem freeIndices_contract (value body : Term) :
    ∃ t, contract value body = .ok t ∧
      t.freeIndices 0 = (body.freeIndices 0).flatMap fun
        | 0 => value.freeIndices 0
        | index + 1 => [index] := by
  refine ⟨instantiate value body 0, contract_eq value body, ?_⟩
  have hfree := freeIndices_instantiate value body 0
  rw [Int.natCast_zero] at hfree
  rw [hfree]
  apply congrArg (body.freeIndices 0).flatMap
  funext index
  cases index with
  | zero => rfl
  | succ index =>
    have hroot : (0 : Int) ≤ index := by omega
    rw [binderGone, freeIndices, if_pos hroot, Int.sub_zero, Int.toNat_natCast]

end Term

end CallByValue
