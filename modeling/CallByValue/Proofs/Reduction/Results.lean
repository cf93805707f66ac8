import CallByValue.Proofs.Reduction.Limit
import CallByValue.Proofs.Term.Presentable
import CallByValue.Proofs.Term.Replacement
/-!
# Results of evaluations

What an evaluation comes to can be read off the result alone: it is an abstraction, a variable, or
an application that is stuck because its operator is no abstraction. These are the terms that cannot
move. No free variable is new in a result, since a contraction puts the free variables of the value
in the place of one that is gone.

A result is also final. Evaluating it again takes no contraction, so neither a limit nor a watcher
has a say, and its operands nest no deeper than the first evaluation had room for.
-/

namespace CallByValue

namespace Term

/-- A term that an evaluation can come to. -/
inductive IsResult : Term → Prop where
  | var (index : Nat) : IsResult (.var index)
  | lam (param : String) (body : Term) : IsResult (.lam param body)
  | app {lhs rhs : Term} (hl : IsResult lhs) (hstuck : lhs.isValue = false) (hr : IsResult rhs) :
      IsResult (.app lhs rhs)

theorem redex?_eq_none_iff {lhs rhs : Term} : redex? lhs rhs = none ↔ lhs.isValue = false := by
  cases lhs <;> simp [redex?, isValue]

theorem isResult_iff {t : Term} : t.IsResult ↔ t.step = none := by
  constructor
  · intro h
    induction h with
    | var index => rfl
    | lam param body => rfl
    | app _ hstuck _ ihl ihr => exact step_app_eq_none ihl ihr hstuck
  · intro h
    induction t with
    | var index => exact .var index
    | lam param body ih => exact .lam param body
    | app lhs rhs ihl ihr =>
      simp only [step_app, Option.or_eq_none_iff, Option.map_eq_none_iff,
        redex?_eq_none_iff] at h
      obtain ⟨⟨hlhs, hrhs⟩, hstuck⟩ := h
      exact .app (ihl hlhs) hstuck (ihr hrhs)

/-! ### Free variables -/

theorem freeIndices_redex_subset (param : String) (body rhs : Term) :
    (instantiate rhs body 0).freeIndices 0 ⊆ (app (lam param body) rhs).freeIndices 0 := by
  intro index hindex
  have hfree := freeIndices_instantiate rhs body 0
  rw [Int.natCast_zero] at hfree
  rw [hfree, List.mem_flatMap] at hindex
  obtain ⟨i, hi, hmem⟩ := hindex
  rw [freeIndices, List.mem_append]
  cases i with
  | zero => exact .inr hmem
  | succ i =>
    have hindex : index = i := by simpa [binderGone, freeIndices] using hmem
    subst hindex
    exact .inl (mem_freeIndices_lam.mpr hi)

theorem Contracts.freeIndices_subset {t c u : Term} (h : t.Contracts c u) :
    u.freeIndices 0 ⊆ t.freeIndices 0 := by
  induction t generalizing c u with
  | var index => cases h.step
  | lam param body ih => cases h.step
  | app lhs rhs ihl ihr =>
    rcases h.app_cases with ⟨l, hl, rfl⟩ | ⟨-, r, hr, rfl⟩ | ⟨-, param, body, rfl, rfl, rfl⟩
    · exact List.append_subset.mpr ⟨List.Subset.trans (ihl hl) (List.subset_append_left _ _),
        List.subset_append_right _ _⟩
    · exact List.append_subset.mpr ⟨List.subset_append_left _ _,
        List.Subset.trans (ihr hr) (List.subset_append_right _ _)⟩
    · exact freeIndices_redex_subset param body rhs

/-! ### Room for evaluating again -/

/-- How deep applications lie in one another, not counting those under a binder. -/
def nesting : Term → Nat
  | .var _ => 0
  | .lam _ _ => 0
  | .app lhs rhs => max lhs.nesting rhs.nesting + 1

end Term

namespace Reducer

open Term (IsResult)

variable {β γ : Type} {reducer : Reducer β}

theorem Runs.freeIndices_subset {t u : Term} {p q : Progress β}
    (h : reducer.Runs (t, p) (u, q)) : u.freeIndices 0 ⊆ t.freeIndices 0 := by
  generalize hs : ((u, q) : Term × Progress β) = s at h
  induction h generalizing u q with
  | refl =>
    cases hs
    exact List.Subset.refl _
  | @tail s s' _ hmoves ih =>
    subst hs
    obtain ⟨c, note, hcontracts, -⟩ := hmoves
    exact List.Subset.trans hcontracts.freeIndices_subset (ih rfl)

theorem nesting_le_of_reduceWithin {fuel room : Nat} {t r : Term} {p q : Progress β}
    (h : reducer.reduceWithin fuel room t p = .ok r q) : r.nesting ≤ room := by
  induction fuel generalizing room t r p q with
  | zero =>
    cases t with
    | app lhs rhs => cases h
    | _ =>
      cases h
      exact Nat.zero_le room
  | succ fuel ih =>
    cases t with
    | app lhs rhs =>
      cases room with
      | zero => cases h
      | succ room =>
        obtain ⟨operator, p₁, operand, p₂, hlhs, hrhs, h⟩ := reduceWithin_app_eq_ok_iff.mp h
        rcases h with ⟨param, body, c, p₃, -, -, h⟩ | ⟨-, rfl, -⟩
        · exact ih h
        · exact Nat.succ_le_succ (Nat.max_le.mpr ⟨ih hlhs, ih hrhs⟩)
    | _ =>
      cases h
      exact Nat.zero_le room

theorem maxDepth_le_fuel (reducer : Reducer β) : Term.maxDepth ≤ reducer.fuel := by
  cases hlimit : reducer.limit with
  | some limit =>
    rw [fuel, hlimit]
    dsimp only
    omega
  | none =>
    rw [fuel, hlimit]
    decide

/-- A result is evaluated to itself, if there is room to look through it. -/
theorem reduceWithin_of_isResult {r : Term} (h : r.IsResult) {fuel room : Nat}
    (hfuel : r.nesting ≤ fuel) (hroom : r.nesting ≤ room) (progress : Progress β) :
    reducer.reduceWithin fuel room r progress = .ok r progress := by
  induction h generalizing fuel room with
  | var index => cases fuel <;> rfl
  | lam param body => cases fuel <;> rfl
  | @app lhs rhs _ hstuck _ ihl ihr =>
    cases fuel with
    | zero => cases hfuel
    | succ fuel =>
      cases room with
      | zero => cases hroom
      | succ room =>
        obtain ⟨hfuell, hfuelr⟩ := Nat.max_le.mp (Nat.le_of_succ_le_succ hfuel)
        obtain ⟨hrooml, hroomr⟩ := Nat.max_le.mp (Nat.le_of_succ_le_succ hroom)
        exact reduceWithin_app_eq_ok_iff.mpr ⟨lhs, progress, rhs, progress,
          ihl hfuell hrooml, ihr hfuelr hroomr, .inr ⟨hstuck, rfl, rfl⟩⟩

theorem reduceNext_of_isResult {r : Term} (h : r.IsResult) (hnesting : r.nesting ≤ Term.maxDepth)
    (progress : Progress β) :
    reducer.reduceNext r progress = .ok r { progress with steps := 0 } :=
  reduceWithin_of_isResult h (Nat.le_trans hnesting (maxDepth_le_fuel reducer)) hnesting _

/-- **Results are final, and bring in no free variable.** Whatever a term is evaluated to is an
abstraction, a variable or a stuck application, and its free variables are some of those of the
term. It is evaluated to itself, whatever was evaluated before, without a contraction and under
every limit. A closed term that comes to a result comes to a closed abstraction. -/
theorem reduceNext_result_final (reducer : Reducer β) (t r : Term) (before stop : Progress β)
    (h : reducer.reduceNext t before = .ok r stop) :
    r.IsResult ∧
    r.freeIndices 0 ⊆ t.freeIndices 0 ∧
    (∀ {γ : Type} (again : Reducer γ) (progress : Progress γ),
      again.reduceNext r progress = .ok r { progress with steps := 0 }) ∧
    (t.isClosed = true → r.isClosed = true ∧ r.isValue = true) := by
  obtain ⟨hruns, hnormal⟩ := (reduceWithin_ends _ _ t { before with steps := 0 }).of_ok h
  have hresult := Term.isResult_iff.mpr hnormal
  have hfree := hruns.freeIndices_subset
  refine ⟨hresult, hfree, ?_, ?_⟩
  · intro γ again progress
    exact reduceNext_of_isResult hresult (nesting_le_of_reduceWithin h) progress
  · intro hclosed
    have hnone : r.freeIndices 0 = [] := by
      rw [Term.isClosed, List.isEmpty_iff] at hclosed
      exact List.subset_nil.mp (hclosed ▸ hfree)
    have hr : r.isClosed = true := by rw [Term.isClosed, hnone, List.isEmpty_nil]
    exact ⟨hr, Term.isValue_of_step_eq_none (Term.isClosed_iff.mp hr) hnormal⟩

/-- An open term comes to a stuck application after two contractions; a limit below zero has nothing
to object to it. -/
theorem reduceNext_result_final_stuck :
    (⟨some 2, none, .silent⟩ : Reducer String).reduceNext
        (.app (.lam "x" (.app (.var 1) (.var 0))) (.app (.lam "y" (.var 0)) (.var 2))) ⟨9, []⟩
      = .ok (.app (.var 0) (.var 2)) ⟨2, []⟩ ∧
    (Term.app (.var 0) (.var 2)).IsResult ∧
    (⟨some (-1), none, .terms⟩ : Reducer Term).reduceNext (.app (.var 0) (.var 2)) ⟨2, []⟩
      = .ok (.app (.var 0) (.var 2)) ⟨0, []⟩ := by
  have h := reduceNext_result_final (⟨some 2, none, .silent⟩ : Reducer String)
    (.app (.lam "x" (.app (.var 1) (.var 0))) (.app (.lam "y" (.var 0)) (.var 2)))
    (.app (.var 0) (.var 2)) ⟨9, []⟩ ⟨2, []⟩ rfl
  exact ⟨rfl, h.1, h.2.2.1 _ _⟩

end Reducer

end CallByValue
