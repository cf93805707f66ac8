import CallByValue.Proofs.Term.Free
import CallByValue.Term.Substitution
/-!
# Contraction never fails

A contraction shifts up, substitutes and shifts down again, and the last shift could move a variable
past zero. It does not: the substitution leaves no variable that points at the binder, so the three
steps come to the single pass of `instantiate`. Contracting keeps a closed term closed, and brings in
no binder names but those of the two terms.
-/

namespace CallByValue

namespace Term

/-- Variables that were moved can be moved again from anywhere in the gap that they left. -/
theorem lift_lift_of_le {skipped amount : Nat} (hle : skipped ≤ amount) (more : Nat) (t : Term)
    (cutoff : Nat) :
    lift more (lift amount t cutoff) (cutoff + skipped) = lift (more + amount) t cutoff := by
  induction t generalizing cutoff with
  | var index =>
    by_cases h : cutoff ≤ index
    · have hup : cutoff + skipped ≤ index + amount := by omega
      simp only [lift, h, hup, if_true, Nat.add_assoc, Nat.add_comm more]
    · have hbelow : ¬ cutoff + skipped ≤ index := by omega
      simp only [lift, h, hbelow, if_false]
  | lam param body ih =>
    have hbody := ih (cutoff + 1)
    rw [Nat.add_right_comm] at hbody
    simp only [lift, hbody]
  | app lhs rhs ihl ihr => simp only [lift, ihl, ihr]

theorem lift_lift (more amount : Nat) (t : Term) (cutoff : Nat) :
    lift more (lift amount t cutoff) cutoff = lift (more + amount) t cutoff :=
  lift_lift_of_le (Nat.zero_le amount) more t cutoff

theorem ofIndex_of_nonneg {index : Int} {value : Nat} (h : index = value) :
    ofIndex index = .ok (.var value) := by
  subst h
  simp [ofIndex]

/-- After a shift up there is room for a shift down, also where some of the binders that were
crossed are counted in. -/
theorem shift_lift (less amount : Nat) (t : Term) (cutoff : Nat) :
    shift (-less) (lift (amount + less) t cutoff) (cutoff + amount : Nat)
      = .ok (lift amount t cutoff) := by
  induction t generalizing cutoff with
  | var index =>
    by_cases h : cutoff ≤ index
    · have hup : ((cutoff + amount : Nat) : Int) ≤ (index + (amount + less) : Nat) := by omega
      have hdown : ((index + (amount + less) : Nat) : Int) + -less = (index + amount : Nat) := by
        omega
      rw [lift, lift, if_pos h, if_pos h, shift, if_pos hup, ofIndex_of_nonneg hdown]
    · have hbelow : ¬ ((cutoff + amount : Nat) : Int) ≤ index := by omega
      rw [lift, lift, if_neg h, if_neg h, shift, if_neg hbelow]
  | lam param body ih =>
    have hbody := ih (cutoff + 1)
    rw [Nat.add_right_comm, Int.natCast_add, Int.natCast_one] at hbody
    rw [lift, lift, shift, hbody]
    rfl
  | app lhs rhs ihl ihr =>
    rw [lift, lift, shift, ihl, ihr]
    rfl

theorem shift_neg_lift (amount : Nat) (t : Term) (cutoff : Nat) :
    shift (-amount) (lift amount t cutoff) cutoff = .ok t := by
  have hback := shift_lift amount 0 t cutoff
  rwa [Nat.zero_add, Nat.add_zero, lift_zero] at hback

theorem lift_injective {amount cutoff : Nat} {t u : Term}
    (h : lift amount t cutoff = lift amount u cutoff) : t = u := by
  have hback := shift_neg_lift amount t cutoff
  rw [h, shift_neg_lift] at hback
  exact (Except.ok.inj hback).symm

/-- Under `depth` binders, substituting and shifting down is instantiating. -/
theorem substitute_shift (value body : Term) (depth : Nat) :
    ∃ t, substitute (lift 1 value 0) body depth = .ok t ∧
      shift (-1) t depth = .ok (instantiate value body depth) := by
  induction body generalizing depth with
  | var index =>
    rcases Nat.lt_trichotomy index depth with hlt | rfl | hgt
    · have hne : (index : Int) ≠ depth := by omega
      have hbelow : ¬ (depth : Int) ≤ index := by omega
      refine ⟨.var index, by rw [substitute, if_neg hne], ?_⟩
      rw [shift, if_neg hbelow, instantiate, if_pos hlt]
    · refine ⟨lift (index + 1) value 0, ?_, ?_⟩
      · have hshift := shift_natCast index (lift 1 value 0) 0
        rw [lift_lift] at hshift
        rw [substitute, if_pos rfl]
        exact hshift
      · have hdown := shift_lift 1 index value 0
        rw [Nat.zero_add, Int.natCast_one] at hdown
        rw [instantiate, if_neg (Nat.lt_irrefl index), if_pos rfl, hdown]
    · have hne : (index : Int) ≠ depth := by omega
      have hup : (depth : Int) ≤ index := by omega
      have hdown : (index : Int) + -1 = (index - 1 : Nat) := by omega
      refine ⟨.var index, by rw [substitute, if_neg hne], ?_⟩
      rw [shift, if_pos hup, ofIndex_of_nonneg hdown, instantiate, if_neg (by omega),
        if_neg (by omega)]
  | lam param body ih =>
    obtain ⟨t, hsubstitute, hshift⟩ := ih (depth + 1)
    rw [Int.natCast_add, Int.natCast_one] at hsubstitute hshift
    refine ⟨.lam param t, ?_, ?_⟩
    · rw [substitute, hsubstitute]
      rfl
    · rw [shift, hshift, instantiate]
      rfl
  | app lhs rhs ihl ihr =>
    obtain ⟨l, hl, hshiftl⟩ := ihl depth
    obtain ⟨r, hr, hshiftr⟩ := ihr depth
    refine ⟨.app l r, ?_, ?_⟩
    · rw [substitute, hl, hr]
      rfl
    · rw [shift, hshiftl, hshiftr, instantiate]
      rfl

/-- A contraction for the variable `depth` binders out, which closes the gap at that depth. -/
def contractAt (depth : Int) (value body : Term) : Except Fault Term := do
  let value ← shift 1 value 0
  let body ← substitute value body depth
  shift (-1) body depth

theorem contractAt_zero (value body : Term) : contractAt 0 value body = contract value body :=
  rfl

theorem contractAt_eq (depth : Nat) (value body : Term) :
    contractAt depth value body = .ok (instantiate value body depth) := by
  obtain ⟨t, hsubstitute, hshift⟩ := substitute_shift value body depth
  have hup : shift 1 value 0 = .ok (lift 1 value 0) := shift_natCast 1 value 0
  rw [contractAt, hup]
  simp only [bind, Except.bind, hsubstitute]
  exact hshift

theorem contract_eq (value body : Term) :
    contract value body = .ok (instantiate value body 0) := by
  rw [← contractAt_zero]
  exact contractAt_eq 0 value body

/-! ### What a contraction keeps -/

@[simp] theorem params_lift (amount : Nat) (t : Term) (cutoff : Nat) :
    (lift amount t cutoff).params = t.params := by
  induction t generalizing cutoff with
  | var index =>
    rw [lift]
    split <;> rfl
  | lam param body ih => simp only [lift, params, ih]
  | app lhs rhs ihl ihr => simp only [lift, params, ihl, ihr]

theorem mem_params_instantiate {value body : Term} {depth : Nat} {param : String}
    (h : param ∈ (instantiate value body depth).params) :
    param ∈ value.params ∨ param ∈ body.params := by
  induction body generalizing depth with
  | var index =>
    rw [instantiate] at h
    split at h
    · cases h
    · split at h
      · rw [params_lift] at h
        exact .inl h
      · cases h
  | lam name body ih =>
    rcases List.mem_cons.mp h with rfl | h
    · exact .inr List.mem_cons_self
    · exact (ih h).imp_right (List.mem_cons_of_mem _)
  | app lhs rhs ihl ihr =>
    rcases List.mem_append.mp h with h | h
    · exact (ihl h).imp_right (List.mem_append_left _)
    · exact (ihr h).imp_right (List.mem_append_right _)

theorem ClosedFrom.lift_eq {t : Term} {cutoff : Nat} (h : ClosedFrom cutoff t) (amount : Nat) :
    lift amount t cutoff = t := by
  induction t generalizing cutoff with
  | var index => rw [lift, if_neg (Nat.not_le_of_lt h)]
  | lam param body ih => rw [lift, ih h]
  | app lhs rhs ihl ihr => rw [lift, ihl h.1, ihr h.2]

theorem ClosedFrom.instantiate_eq {t : Term} {depth : Nat} (h : ClosedFrom depth t)
    (value : Term) : Term.instantiate value t depth = t := by
  induction t generalizing depth with
  | var index =>
    have hlt : index < depth := h
    rw [Term.instantiate, if_pos hlt]
  | lam param body ih => rw [Term.instantiate, ih h]
  | app lhs rhs ihl ihr => rw [Term.instantiate, ihl h.1, ihr h.2]

theorem ClosedFrom.mono {t : Term} {depth more : Nat} (h : ClosedFrom depth t)
    (hle : depth ≤ more) : ClosedFrom more t := by
  induction t generalizing depth more with
  | var index => exact Nat.lt_of_lt_of_le h hle
  | lam param body ih => exact ih h (Nat.succ_le_succ hle)
  | app lhs rhs ihl ihr => exact ⟨ihl h.1 hle, ihr h.2 hle⟩

theorem ClosedFrom.instantiate {value body : Term} {depth : Nat} (hvalue : ClosedFrom 0 value)
    (hbody : ClosedFrom (depth + 1) body) : ClosedFrom depth (instantiate value body depth) := by
  induction body generalizing depth with
  | var index =>
    rw [Term.instantiate]
    split
    · next hlt => exact hlt
    · split
      · rw [hvalue.lift_eq]
        exact hvalue.mono (Nat.zero_le depth)
      · have hlt : index < depth + 1 := hbody
        omega
  | lam param body ih => exact ih hbody
  | app lhs rhs ihl ihr => exact ⟨ihl hbody.1, ihr hbody.2⟩

end Term

end CallByValue
