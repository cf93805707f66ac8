import CallByValue.Proofs.Term.Contraction
/-!
# Shifts in a row

A shift by a negative amount can fail. The first variable that would come to stand below zero ends
it, and the fault names the index that this variable would have had. `movable` lists the variables
that a shift moves, so that its outcome can be read off the list.

A variable may be moved in to where the cutoff is and no further without being caught by a binder.
If the first of two shifts keeps to that, the second one moves the same variables. The two then come
to one shift by both amounts together, and fail where it fails.
-/

namespace CallByValue

namespace Term

/-! ### How a shift ends -/

/-- The variables that are free from `cutoff` on, in order and with repetitions, each by the index it
has where it stands. -/
def movable : Term → (cutoff : Int) → List Nat
  | .var index, cutoff => if cutoff ≤ index then [index] else []
  | .lam _ body, cutoff => body.movable (cutoff + 1)
  | .app lhs rhs, cutoff => lhs.movable cutoff ++ rhs.movable cutoff

/-- The first variable that a shift would move below zero. -/
def fallen? (amount : Int) (t : Term) (cutoff : Int) : Option Nat :=
  (t.movable cutoff).find? fun index => (index : Int) + amount < 0

theorem fallen?_app (amount : Int) (lhs rhs : Term) (cutoff : Int) :
    (app lhs rhs).fallen? amount cutoff
      = (lhs.fallen? amount cutoff).or (rhs.fallen? amount cutoff) :=
  List.find?_append

theorem fallen?_var {index : Nat} {cutoff : Int} (hfree : cutoff ≤ index) (amount : Int) :
    (var index).fallen? amount cutoff = if (index : Int) + amount < 0 then some index else none := by
  rw [fallen?, movable, if_pos hfree, List.find?_singleton]
  simp only [decide_eq_true_eq]

theorem fallen?_var_of_lt {index : Nat} {cutoff : Int} (hbound : ¬ cutoff ≤ index) (amount : Int) :
    (var index).fallen? amount cutoff = none := by
  rw [fallen?, movable, if_neg hbound]
  rfl

theorem exists_shift_of_fallen?_eq_none {amount : Int} {t : Term} {cutoff : Int}
    (h : t.fallen? amount cutoff = none) : ∃ u, shift amount t cutoff = .ok u := by
  induction t generalizing cutoff with
  | var index =>
    by_cases hfree : cutoff ≤ index
    · rw [fallen?_var hfree] at h
      split at h
      · cases h
      · next hnonneg => exact ⟨_, by rw [shift, if_pos hfree, ofIndex, if_neg hnonneg]⟩
    · exact ⟨.var index, by rw [shift, if_neg hfree]⟩
  | lam param body ih =>
    obtain ⟨u, hu⟩ := ih h
    exact ⟨.lam param u, by rw [shift, hu]; rfl⟩
  | app lhs rhs ihl ihr =>
    rw [fallen?_app, Option.or_eq_none_iff] at h
    obtain ⟨l, hl⟩ := ihl h.1
    obtain ⟨r, hr⟩ := ihr h.2
    exact ⟨.app l r, by rw [shift, hl, hr]; rfl⟩

theorem shift_of_fallen?_eq_some {amount : Int} {t : Term} {cutoff : Int} {index : Nat}
    (h : t.fallen? amount cutoff = some index) :
    shift amount t cutoff = .error (.defect (.negativeIndex (index + amount))) := by
  induction t generalizing cutoff with
  | var other =>
    by_cases hfree : cutoff ≤ other
    · rw [fallen?_var hfree] at h
      split at h
      · next hneg =>
        cases h
        rw [shift, if_pos hfree, ofIndex, if_pos hneg]
      · cases h
    · rw [fallen?_var_of_lt hfree] at h
      cases h
  | lam param body ih => rw [shift, ih h]; rfl
  | app lhs rhs ihl ihr =>
    -- The operand is looked at only if the operator could be moved.
    rw [fallen?_app] at h
    cases hlhs : lhs.fallen? amount cutoff with
    | some first =>
      rw [hlhs, Option.some_or] at h
      cases h
      rw [shift, ihl hlhs]
      rfl
    | none =>
      rw [hlhs, Option.none_or] at h
      obtain ⟨l, hl⟩ := exists_shift_of_fallen?_eq_none hlhs
      rw [shift, hl, ihr h]
      rfl

/-! ### One shift after another -/

/-- A shift that moves every free variable no further in than the cutoff can be followed by any
other, and both together are one shift. -/
theorem exists_shift_add {b : Int} {t : Term} {cutoff : Int} (hcutoff : 0 ≤ cutoff)
    (hroom : ∀ index ∈ t.freeIndices cutoff, 0 ≤ (index : Int) + b) :
    ∃ u, shift b t cutoff = .ok u ∧ ∀ a, shift a u cutoff = shift (a + b) t cutoff := by
  induction t generalizing cutoff with
  | var index =>
    by_cases hfree : cutoff ≤ index
    · have hmem : (index - cutoff).toNat ∈ (var index).freeIndices cutoff := by
        rw [freeIndices, if_pos hfree]
        exact List.mem_singleton_self _
      have hstill := hroom _ hmem
      obtain ⟨moved, hmoved⟩ : ∃ moved : Nat, (index : Int) + b = moved :=
        ⟨(index + b).toNat, by omega⟩
      refine ⟨.var moved, by rw [shift, if_pos hfree, ofIndex_of_nonneg hmoved], ?_⟩
      intro a
      have hsum : (moved : Int) + a = index + (a + b) := by omega
      rw [shift, shift, if_pos hfree, if_pos (by omega), hsum]
    · refine ⟨.var index, by rw [shift, if_neg hfree], ?_⟩
      intro a
      rw [shift, shift, if_neg hfree, if_neg hfree]
  | lam param body ih =>
    obtain ⟨u, hu, hnext⟩ := ih (by omega) hroom
    refine ⟨.lam param u, by rw [shift, hu]; rfl, ?_⟩
    intro a
    rw [shift, shift, hnext]
  | app lhs rhs ihl ihr =>
    obtain ⟨l, hl, hnextl⟩ := ihl hcutoff fun index h => hroom index (List.mem_append_left _ h)
    obtain ⟨r, hr, hnextr⟩ := ihr hcutoff fun index h => hroom index (List.mem_append_right _ h)
    refine ⟨.app l r, by rw [shift, hl, hr]; rfl, ?_⟩
    intro a
    rw [shift, shift, hnextl, hnextr]

/-- **Shifts compose, and so do their faults.** Let a first shift leave every variable that is free
from the cutoff on at the cutoff or beyond it. Then it does not fail, and a second shift ends as one
shift by the sum does: both give the same term, binder names included, or both fail at the first
variable that falls below zero and name the index it would have had. A shift by nothing hands the
term back, so that it may as well be left out, and a shift outwards is undone by one inwards. -/
theorem shift_shift (t : Term) {cutoff : Int} (hcutoff : 0 ≤ cutoff) :
    (∀ a b : Int, (∀ index ∈ t.freeIndices cutoff, 0 ≤ (index : Int) + b) →
      ∃ u, shift b t cutoff = .ok u ∧
        match t.fallen? (a + b) cutoff with
        | none => ∃ v, shift a u cutoff = .ok v ∧ shift (a + b) t cutoff = .ok v
        | some index =>
          ∃ cause : Defect, cause.label = "ValueError" ∧
            cause.text = Defect.indexText (index + (a + b)) ∧
            shift a u cutoff = .error (.defect cause) ∧
            shift (a + b) t cutoff = .error (.defect cause)) ∧
    shift 0 t cutoff = .ok t ∧
    ∀ b : Int, 0 ≤ b → ∃ u, shift b t cutoff = .ok u ∧ shift (-b) u cutoff = .ok t := by
  have hnothing : shift 0 t cutoff = .ok t := by
    obtain ⟨depth, rfl⟩ := Int.eq_ofNat_of_zero_le hcutoff
    exact shift_zero t depth
  refine ⟨?_, hnothing, ?_⟩
  · intro a b hroom
    obtain ⟨u, hu, hnext⟩ := exists_shift_add hcutoff hroom
    refine ⟨u, hu, ?_⟩
    rw [hnext a]
    split
    · next hnone =>
      obtain ⟨v, hv⟩ := exists_shift_of_fallen?_eq_none hnone
      exact ⟨v, hv, hv⟩
    · next index hsome =>
      have hfault := shift_of_fallen?_eq_some hsome
      exact ⟨.negativeIndex (index + (a + b)), rfl, rfl, hfault, hfault⟩
  · intro b hb
    obtain ⟨u, hu, hnext⟩ := exists_shift_add hcutoff fun index _ =>
      Int.add_nonneg (Int.natCast_nonneg index) hb
    refine ⟨u, hu, ?_⟩
    rw [hnext, Int.add_left_neg, hnothing]

/-- The variable below the binder has a higher index than the one beside it and does not fall, so the
fault names the one that comes later. -/
theorem shift_shift_falling :
    let t : Term := .app (.lam "x" (.app (.var 1) (.var 4))) (.var 2)
    (0 : Int) ≤ 1 ∧ (∀ index ∈ t.freeIndices 1, 0 ≤ (index : Int) + -1) ∧
    ∃ u cause, shift (-1) t 1 = .ok u ∧ cause.text = Defect.indexText (-1) ∧
      shift (-2) u 1 = .error (.defect cause) ∧ shift (-3) t 1 = .error (.defect cause) := by
  intro t
  have hcutoff : (0 : Int) ≤ 1 := by decide
  have hroom : ∀ index ∈ t.freeIndices 1, 0 ≤ (index : Int) + -1 := by decide
  obtain ⟨u, hu, cause, -, htext, hsecond, hboth⟩ := (shift_shift t hcutoff).1 (-2) (-1) hroom
  exact ⟨hcutoff, hroom, u, cause, hu, htext, hsecond, hboth⟩

end Term

end CallByValue
