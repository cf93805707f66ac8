import CallByValue.Fault
import Mathlib.Data.Nat.Digits.Defs
/-!
# Numbers that can be written

A number of at most `Text.maxDigits` digits has a writing, and the fault that blames a limit is a
diagnostic just if the limit is such a number. All the numbers up to one that can be written can be
written.
-/

namespace CallByValue

namespace Text

/-- The number takes no more digits than are ever written. -/
def Writable (n : Int) : Prop :=
  n.natAbs < 10 ^ maxDigits

theorem writable_of_lt_ten {n : Int} (h : n.natAbs < 10) : Writable n :=
  Nat.lt_of_lt_of_le h (Nat.le_self_pow (by decide) 10)

theorem writable_of_mem_some {k : Int} (h : k.natAbs < 10) : ∀ n ∈ some k, Writable n := by
  intro n hn
  cases hn
  exact writable_of_lt_ten h

theorem Writable.of_le {n k : Nat} (h : Writable n) (hle : k ≤ n) : Writable k :=
  Nat.lt_of_le_of_lt hle h

theorem not_writable_neg_pow {k : Nat} (h : maxDigits ≤ k) : ¬ Writable (-10 ^ k) := by
  have hten : (10 : Int).natAbs = 10 := rfl
  rw [Writable, Int.natAbs_neg, Int.natAbs_pow, hten, Nat.not_lt]
  exact Nat.pow_le_pow_right (by decide) h

theorem writable_iff {n : Int} : Writable n ↔ (Nat.toDigits 10 n.natAbs).length ≤ maxDigits :=
  (Nat.length_toDigits_le_iff (by decide) (by decide)).symm

theorem Writable.decimal_eq {n : Int} (h : Writable n) : decimal n = .ok (toString n) := by
  rw [decimal, decimal?, if_neg (Nat.not_lt_of_le (writable_iff.mp h))]

theorem decimal_eq_error {n : Int} (h : ¬ Writable n) :
    decimal n = .error (.defect .tooManyDigits) := by
  rw [writable_iff, Nat.not_le] at h
  rw [decimal, decimal?, if_pos h]

end Text

namespace Fault

theorem nonTermination_eq {n : Int} (h : Text.Writable n) :
    nonTermination n = .diagnostic (.nonTermination (toString n)) := by
  rw [nonTermination, h.decimal_eq]

theorem nonTermination_eq_defect {n : Int} (h : ¬ Text.Writable n) :
    nonTermination n = .defect .tooManyDigits := by
  rw [nonTermination, Text.decimal_eq_error h]

theorem nonTermination_cases (n : Int) :
    nonTermination n = .diagnostic (.nonTermination (toString n)) ∨
      nonTermination n = .defect .tooManyDigits ∧ ¬ Text.Writable n := by
  by_cases h : Text.Writable n
  · exact .inl (nonTermination_eq h)
  · exact .inr ⟨nonTermination_eq_defect h, h⟩

end Fault

end CallByValue
