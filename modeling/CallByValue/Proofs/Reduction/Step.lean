import CallByValue.Reduction.Step
/-!
# Steps and their contracta

What one step does to an application, case by case, and what becomes of a row of steps: it can be
cut short, and it ends at the first term that cannot move.
-/

namespace CallByValue

namespace Term

/-- What an application contracts to when neither of its parts can move. -/
def redex? : (lhs rhs : Term) → Option Term
  | .lam _ body, rhs => some (instantiate rhs body 0)
  | _, _ => none

theorem step_app (lhs rhs : Term) :
    (app lhs rhs).step
      = ((lhs.step.map (app · rhs)).or (rhs.step.map (app lhs ·))).or (redex? lhs rhs) := by
  cases lhs with
  | lam param body => cases hr : rhs.step <;> simp [step, redex?, hr]
  | var index => cases hr : rhs.step <;> simp [step, redex?, hr]
  | app l r =>
    conv => lhs; unfold step
    cases (app l r).step <;> cases rhs.step <;> rfl

theorem contractum_app (lhs rhs : Term) :
    (app lhs rhs).contractum = (lhs.contractum.or rhs.contractum).or (redex? lhs rhs) := by
  cases lhs with
  | lam param body => cases hr : rhs.contractum <;> simp [contractum, redex?, hr]
  | var index => cases hr : rhs.contractum <;> simp [contractum, redex?, hr]
  | app l r =>
    conv => lhs; unfold contractum
    cases (app l r).contractum <;> cases rhs.contractum <;> rfl

theorem isSome_contractum (t : Term) : t.contractum.isSome = t.step.isSome := by
  induction t with
  | var index => rfl
  | lam param body ih => rfl
  | app lhs rhs ihl ihr =>
    simp only [step_app, contractum_app, Option.isSome_or, Option.isSome_map, ihl, ihr]

theorem contractum_eq_none_iff {t : Term} : t.contractum = none ↔ t.step = none := by
  rw [← Option.isNone_iff_eq_none, ← Option.isNone_iff_eq_none, ← Option.not_isSome,
    ← Option.not_isSome, isSome_contractum]

theorem step_app_eq_none {lhs rhs : Term} (hlhs : lhs.step = none) (hrhs : rhs.step = none)
    (hvalue : lhs.isValue = false) : (app lhs rhs).step = none := by
  rw [step_app, hlhs, hrhs]
  cases lhs with
  | lam param body => cases hvalue
  | _ => rfl

/-- The next redex is contracted to `c`, which makes the term into `u`. -/
structure Contracts (t c u : Term) : Prop where
  contractum : t.contractum = some c
  step : t.step = some u

theorem exists_contracts {t u : Term} (h : t.step = some u) : ∃ c, t.Contracts c u := by
  have hne : t.contractum ≠ none := fun hnone => by simp [contractum_eq_none_iff.mp hnone] at h
  obtain ⟨c, hc⟩ := Option.ne_none_iff_exists'.mp hne
  exact ⟨c, hc, h⟩

theorem Contracts.app_left {lhs c l : Term} (h : lhs.Contracts c l) (rhs : Term) :
    (app lhs rhs).Contracts c (app l rhs) := by
  constructor
  · rw [contractum_app, h.contractum, Option.some_or, Option.some_or]
  · rw [step_app, h.step, Option.map_some, Option.some_or, Option.some_or]

theorem Contracts.app_right {lhs rhs c r : Term} (hlhs : lhs.step = none)
    (h : rhs.Contracts c r) : (app lhs rhs).Contracts c (app lhs r) := by
  constructor
  · rw [contractum_app, contractum_eq_none_iff.mpr hlhs, h.contractum, Option.none_or,
      Option.some_or]
  · rw [step_app, hlhs, h.step, Option.map_none, Option.none_or, Option.map_some, Option.some_or]

theorem Contracts.redex (param : String) (body : Term) {rhs : Term} (hrhs : rhs.step = none) :
    (app (lam param body) rhs).Contracts (instantiate rhs body 0) (instantiate rhs body 0) := by
  constructor
  · rw [contractum_app, contractum_eq_none_iff.mpr hrhs]
    rfl
  · rw [step_app, hrhs]
    rfl

theorem Contracts.unique {t c u c' u' : Term} (h : t.Contracts c u) (h' : t.Contracts c' u') :
    c = c' ∧ u = u' :=
  ⟨Option.some.inj (h.contractum.symm.trans h'.contractum),
    Option.some.inj (h.step.symm.trans h'.step)⟩

/-- A step of an application is one of its operator, one of its operand, or its contraction. -/
theorem Contracts.app_cases {lhs rhs c u : Term} (h : (app lhs rhs).Contracts c u) :
    (∃ l, lhs.Contracts c l ∧ u = app l rhs) ∨
    (lhs.step = none ∧ ∃ r, rhs.Contracts c r ∧ u = app lhs r) ∨
    (rhs.step = none ∧ ∃ param body, lhs = lam param body ∧ c = instantiate rhs body 0 ∧
      u = instantiate rhs body 0) := by
  cases hlhs : lhs.step with
  | some l =>
    obtain ⟨c', hl⟩ := exists_contracts hlhs
    obtain ⟨rfl, rfl⟩ := h.unique (hl.app_left rhs)
    exact .inl ⟨l, hl, rfl⟩
  | none =>
    cases hrhs : rhs.step with
    | some r =>
      obtain ⟨c', hr⟩ := exists_contracts hrhs
      obtain ⟨rfl, rfl⟩ := h.unique (hr.app_right hlhs)
      exact .inr (.inl ⟨rfl, r, hr, rfl⟩)
    | none =>
      cases lhs with
      | lam param body =>
        obtain ⟨rfl, rfl⟩ := h.unique (.redex param body hrhs)
        exact .inr (.inr ⟨rfl, param, body, rfl, rfl, rfl⟩)
      | _ => cases h.step.symm.trans (step_app_eq_none hlhs hrhs rfl)

/-! ### Rows of steps -/

theorem steps_add (first second : Nat) (t : Term) :
    steps (first + second) t = (steps first t).bind (steps second) := by
  induction first generalizing t with
  | zero => simp [steps]
  | succ first ih =>
    rw [Nat.succ_add, steps, steps, Option.bind_assoc]
    exact congrArg _ (funext ih)

theorem le_of_steps {t u r : Term} {i k : Nat} (hu : steps i t = some u) (hr : steps k t = some r)
    (hnormal : r.step = none) : i ≤ k := by
  apply Nat.le_of_not_lt
  intro hlt
  obtain ⟨more, rfl⟩ := Nat.exists_eq_add_of_lt hlt
  rw [Nat.add_assoc, steps_add, hr, Option.bind_some, steps, hnormal] at hu
  cases hu

theorem steps_normal_unique {t r u : Term} {k i : Nat} (hr : steps k t = some r)
    (hnormal : r.step = none) (hu : steps i t = some u) (hnormal' : u.step = none) :
    k = i ∧ r = u := by
  have heq : k = i := Nat.le_antisymm (le_of_steps hr hu hnormal') (le_of_steps hu hr hnormal)
  subst heq
  exact ⟨rfl, Option.some.inj (hr.symm.trans hu)⟩

theorem contracta_succ {t c u : Term} (h : t.Contracts c u) (count : Nat) :
    contracta (count + 1) t = c :: contracta count u := by
  rw [contracta, h.contractum, h.step]

theorem contracta_of_step_eq_none {t : Term} (h : t.step = none) (count : Nat) :
    contracta count t = [] := by
  cases count with
  | zero => rfl
  | succ count => rw [contracta, h, contractum_eq_none_iff.mpr h]

theorem contracta_add {t u : Term} {count : Nat} (h : steps count t = some u) (more : Nat) :
    contracta (count + more) t = contracta count t ++ contracta more u := by
  induction count generalizing t with
  | zero =>
    cases h
    rw [Nat.zero_add, contracta, List.nil_append]
  | succ count ih =>
    obtain ⟨v, hv, hu⟩ := Option.bind_eq_some_iff.mp h
    obtain ⟨c, hc⟩ := exists_contracts hv
    rw [Nat.succ_add, contracta_succ hc, contracta_succ hc, ih hu, List.cons_append]

theorem contracta_eq_of_normal {t r : Term} {count : Nat} (h : steps count t = some r)
    (hnormal : r.step = none) {more : Nat} (hle : count ≤ more) :
    contracta more t = contracta count t := by
  obtain ⟨rest, rfl⟩ := Nat.exists_eq_add_of_le hle
  rw [contracta_add h, contracta_of_step_eq_none hnormal, List.append_nil]

theorem contracta_eq_append_cons {t u c v : Term} {count : Nat} (h : steps count t = some u)
    (hcontracts : u.Contracts c v) {more : Nat} (hlt : count < more) :
    ∃ back, contracta more t = contracta count t ++ c :: back := by
  obtain ⟨rest, rfl⟩ := Nat.exists_eq_add_of_lt hlt
  refine ⟨contracta rest v, ?_⟩
  rw [Nat.add_assoc, contracta_add h, contracta_succ hcontracts]

theorem length_contracta {t u : Term} {count : Nat} (h : steps count t = some u) :
    (contracta count t).length = count := by
  induction count generalizing t with
  | zero => rfl
  | succ count ih =>
    obtain ⟨v, hv, hu⟩ := Option.bind_eq_some_iff.mp h
    obtain ⟨c, hc⟩ := exists_contracts hv
    rw [contracta_succ hc, List.length_cons, ih hu]

end Term

end CallByValue
