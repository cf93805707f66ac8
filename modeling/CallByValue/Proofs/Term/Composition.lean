import CallByValue.Proofs.Term.Replacement
/-!
# Replacements in a row

Two replacements, one after the other, come to one: every variable becomes what the second makes of
what the first has put in for it. Moving the variables out is a replacement too, and so is a
contraction. So what is replaced after a contraction may as well be replaced before it, in the value
as it stands and in the body as seen from one binder further in. If a second contraction is taken for
the replacement, this is the substitution lemma.
-/

namespace CallByValue

namespace Term

/-! ### Replacing and moving -/

theorem underBinder_var : underBinder .var = .var := by
  funext index
  cases index with
  | zero => rfl
  | succ index => rw [underBinder, lift, if_pos (Nat.zero_le index)]

theorem replace_var (t : Term) : t.replace .var = t := by
  induction t with
  | var index => rfl
  | lam param body ih => rw [replace, underBinder_var, ih]
  | app lhs rhs ihl ihr => rw [replace, ihl, ihr]

theorem replace_lift (assigned : Nat → Term) (amount : Nat) (t : Term) (cutoff : Nat) :
    (lift amount t cutoff).replace (underBinder^[cutoff] assigned)
      = t.replace (underBinder^[cutoff] fun index => assigned (index + amount)) := by
  induction t generalizing cutoff with
  | var index =>
    by_cases hfree : cutoff ≤ index
    · have hmoved : index + amount - cutoff = index - cutoff + amount := by omega
      rw [lift, if_pos hfree, replace, replace, iterate_underBinder, iterate_underBinder,
        if_neg (by omega), if_neg (by omega), hmoved]
    · rw [lift, if_neg hfree, replace, replace, iterate_underBinder, iterate_underBinder,
        if_pos (by omega), if_pos (by omega)]
  | lam param body ih =>
    rw [lift, replace, replace, ← Function.iterate_succ_apply' underBinder,
      ← Function.iterate_succ_apply' underBinder, ih]
  | app lhs rhs ihl ihr => rw [lift, replace, replace, ihl, ihr]

theorem lift_replace (assigned : Nat → Term) (amount : Nat) (t : Term) (cutoff : Nat) :
    lift amount (t.replace (underBinder^[cutoff] assigned)) cutoff
      = t.replace (underBinder^[cutoff] fun index => lift amount (assigned index) 0) := by
  induction t generalizing cutoff with
  | var index =>
    rw [replace, replace, iterate_underBinder, iterate_underBinder]
    by_cases hfree : cutoff ≤ index
    · have hgap := lift_lift_of_le (Nat.le_refl cutoff) amount (assigned (index - cutoff)) 0
      rw [Nat.zero_add] at hgap
      rw [if_neg (by omega), if_neg (by omega), hgap, lift_lift, Nat.add_comm]
    · rw [if_pos (by omega), if_pos (by omega), lift, if_neg hfree]
  | lam param body ih =>
    rw [replace, replace, lift, ← Function.iterate_succ_apply' underBinder,
      ← Function.iterate_succ_apply' underBinder, ih]
  | app lhs rhs ihl ihr => rw [replace, replace, lift, ihl, ihr]

/-! ### Replacing twice -/

/-- The composition of two replacements, seen from one binder further in. -/
theorem replace_underBinder (first second : Nat → Term) :
    (fun index => (underBinder first index).replace (underBinder second))
      = underBinder fun index => (first index).replace second := by
  funext index
  cases index with
  | zero => rfl
  | succ index =>
    have hmoved : (lift 1 (first index) 0).replace (underBinder second)
        = (first index).replace fun index => lift 1 (second index) 0 :=
      replace_lift (underBinder second) 1 (first index) 0
    rw [underBinder, underBinder, hmoved]
    exact (lift_replace second 1 (first index) 0).symm

theorem replace_replace (first second : Nat → Term) (t : Term) :
    (t.replace first).replace second = t.replace fun index => (first index).replace second := by
  induction t generalizing first second with
  | var index => rfl
  | lam param body ih => rw [replace, replace, replace, ih, replace_underBinder]
  | app lhs rhs ihl ihr => rw [replace, replace, replace, ihl, ihr]

/-! ### Contractions -/

/-- The variable of the binder that is gone does not occur in what was moved past it. -/
theorem replace_binderGone_lift (value t : Term) : (lift 1 t 0).replace (binderGone value) = t := by
  have hmoved := replace_lift (binderGone value) 1 t 0
  exact hmoved.trans (replace_var t)

theorem replace_instantiate (assigned : Nat → Term) (value body : Term) :
    (instantiate value body 0).replace assigned
      = instantiate (value.replace assigned) (body.replace (underBinder assigned)) 0 := by
  have hpoint : (fun index => (binderGone value index).replace assigned)
      = fun index => (underBinder assigned index).replace (binderGone (value.replace assigned)) := by
    funext index
    cases index with
    | zero => rfl
    | succ index => exact (replace_binderGone_lift _ (assigned index)).symm
  calc (instantiate value body 0).replace assigned
      = body.replace fun index => (binderGone value index).replace assigned := by
        rw [instantiate_eq_replace, Function.iterate_zero_apply, replace_replace]
    _ = (body.replace (underBinder assigned)).replace (binderGone (value.replace assigned)) := by
        rw [hpoint, replace_replace]
    _ = instantiate (value.replace assigned) (body.replace (underBinder assigned)) 0 :=
        (instantiate_eq_replace _ _ 0).symm

theorem instantiate_instantiate (outer inner body : Term) :
    instantiate outer (instantiate inner body 0) 0
      = instantiate (instantiate outer inner 0) (instantiate outer body 1) 0 := by
  have hnear (t : Term) : instantiate outer t 0 = t.replace (binderGone outer) :=
    instantiate_eq_replace outer t 0
  have hfar : instantiate outer body 1 = body.replace (underBinder (binderGone outer)) :=
    instantiate_eq_replace outer body 1
  rw [hnear, hnear, hfar, replace_instantiate]

/-- **The substitution lemma.** Let a body be contracted with a first value, and what comes out with
a second. Or let the second value go first: into the first value, and into the body for the variable
one binder out, and let the body be contracted with the first value then. Both ways come to the same
term, binder names included, and none of the five contractions fails. -/
theorem contract_contract (outer inner body : Term) :
    ∃ once value below result,
      contract inner body = .ok once ∧ contract outer once = .ok result ∧
      contract outer inner = .ok value ∧ contractAt 1 outer body = .ok below ∧
      contract value below = .ok result := by
  refine ⟨instantiate inner body 0, instantiate outer inner 0, instantiate outer body 1,
    instantiate outer (instantiate inner body 0) 0, contract_eq inner body, contract_eq outer _,
    contract_eq outer inner, contractAt_eq 1 outer body, ?_⟩
  rw [instantiate_instantiate]
  exact contract_eq _ _

/-- Both ways for a body that uses both variables below a binder, and one of the world around. -/
example :
    let body : Term := .lam "x" (.app (.var 1) (.app (.var 2) (.var 3)))
    let inner : Term := .app (.var 0) (.var 1)
    let result : Term := .lam "x" (.app (.app (.var 6) (.var 1)) (.app (.var 6) (.var 1)))
    (contract inner body >>= contract (.var 5)) = .ok result ∧
    (contract (.var 5) inner >>= fun value => contractAt 1 (.var 5) body >>= contract value)
      = .ok result := by
  exact ⟨rfl, rfl⟩

end Term

end CallByValue
