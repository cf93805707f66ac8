import CallByValue.Proofs.Ending
import CallByValue.Proofs.Reduction.Step
import CallByValue.Proofs.Term.Contraction
import CallByValue.Reduction.Evaluator
import Mathlib.Logic.Relation
/-!
# The evaluator takes steps

The evaluator works on the parts of an application, with one count for all of them. Seen from the
root it does nothing but take steps, one contraction at a time and each on the whole term: an
evaluation that gives a result has run from its term to one that cannot move, and one that is cut
short has run up to the contraction that was refused. Work on an operand is a run of the whole
application, because the operator cannot move any more by then.

How deep evaluations nest plays no part in this. The fuel does not run out before more contractions
are made than are left above the room for nesting.
-/

namespace CallByValue

namespace Reducer

open Relation (ReflTransGen)

variable {β : Type} (reducer : Reducer β)

/-- A contraction that is allowed, counted and noted. -/
def Moves (s s' : Term × Progress β) : Prop :=
  ∃ c note, s.1.Contracts c s'.1 ∧ reducer.objection? (s.2.steps + 1) = none ∧
    reducer.watch c = .ok note ∧ s'.2 = ⟨s.2.steps + 1, note.toList ++ s.2.notes⟩

def Runs (s s' : Term × Progress β) : Prop :=
  ReflTransGen reducer.Moves s s'

/-- A contraction to `c` that is counted and then refused. -/
def Refuses (steps : Nat) (c : Term) (fault : Fault) : Prop :=
  reducer.objection? steps = some fault ∨
    reducer.objection? steps = none ∧ reducer.watch c = .error fault

/-- How an evaluation that starts at `s` is cut short. -/
inductive Halts (fuel room : Nat) (s : Term × Progress β) (fault : Fault) (stop : Progress β) :
    Prop where
  | refused {t c u : Term} {progress : Progress β} (hruns : reducer.Runs s (t, progress))
      (hcontracts : t.Contracts c u) (hrefuses : reducer.Refuses (progress.steps + 1) c fault)
      (hstop : stop = { progress with steps := progress.steps + 1 })
  | depth {t : Term} {progress : Progress β} (hruns : reducer.Runs s (t, progress))
      (hfault : fault = .depthExceeded) (hnotes : stop.notes = progress.notes)
  | fuel {t : Term} (hruns : reducer.Runs s (t, stop)) (hfault : fault = .outOfFuel)
      (hfuel : fuel + s.2.steps ≤ room + stop.steps)

variable {reducer}

theorem Moves.steps_eq {s s' : Term × Progress β} (h : reducer.Moves s s') :
    s'.2.steps = s.2.steps + 1 := by
  obtain ⟨c, note, -, -, -, hprogress⟩ := h
  rw [hprogress]

theorem Runs.steps_le {s s' : Term × Progress β} (h : reducer.Runs s s') :
    s.2.steps ≤ s'.2.steps := by
  induction h with
  | refl => exact Nat.le_refl _
  | tail _ hmoves ih =>
    rw [hmoves.steps_eq]
    exact Nat.le_succ_of_le ih

theorem Runs.app_left {lhs l : Term} {p q : Progress β} (h : reducer.Runs (lhs, p) (l, q))
    (rhs : Term) : reducer.Runs (.app lhs rhs, p) (.app l rhs, q) := by
  refine ReflTransGen.lift (fun s => (Term.app s.1 rhs, s.2)) ?_ _ _ h
  rintro s s' ⟨c, note, hcontracts, hrest⟩
  exact ⟨c, note, hcontracts.app_left rhs, hrest⟩

theorem Runs.app_right {lhs rhs r : Term} {p q : Progress β} (hlhs : lhs.step = none)
    (h : reducer.Runs (rhs, p) (r, q)) : reducer.Runs (.app lhs rhs, p) (.app lhs r, q) := by
  refine ReflTransGen.lift (fun s => (Term.app lhs s.1, s.2)) ?_ _ _ h
  rintro s s' ⟨c, note, hcontracts, hrest⟩
  exact ⟨c, note, hcontracts.app_right hlhs, hrest⟩

section Halts

variable {fuel room : Nat} {fault : Fault} {stop : Progress β}

theorem Halts.of_runs {s s' : Term × Progress β} (hruns : reducer.Runs s s')
    (h : reducer.Halts fuel room s' fault stop) : reducer.Halts fuel room s fault stop := by
  cases h with
  | refused hmore hcontracts hrefuses hstop =>
    exact .refused (ReflTransGen.trans hruns hmore) hcontracts hrefuses hstop
  | depth hmore hfault hnotes => exact .depth (ReflTransGen.trans hruns hmore) hfault hnotes
  | fuel hmore hfault hfuel =>
    have hle := hruns.steps_le
    exact .fuel (ReflTransGen.trans hruns hmore) hfault (by omega)

/-- The loop around a contraction takes one piece of fuel and no room. -/
theorem Halts.of_moves {s s' : Term × Progress β} (hmoves : reducer.Moves s s')
    (h : reducer.Halts fuel room s' fault stop) : reducer.Halts (fuel + 1) room s fault stop := by
  cases h with
  | refused hmore hcontracts hrefuses hstop =>
    exact .refused (ReflTransGen.head hmoves hmore) hcontracts hrefuses hstop
  | depth hmore hfault hnotes => exact .depth (ReflTransGen.head hmoves hmore) hfault hnotes
  | fuel hmore hfault hfuel =>
    rw [hmoves.steps_eq] at hfuel
    exact .fuel (ReflTransGen.head hmoves hmore) hfault (by omega)

theorem Halts.app_left {lhs : Term} {p : Progress β} (h : reducer.Halts fuel room (lhs, p) fault stop)
    (rhs : Term) : reducer.Halts (fuel + 1) (room + 1) (.app lhs rhs, p) fault stop := by
  cases h with
  | refused hruns hcontracts hrefuses hstop =>
    exact .refused (hruns.app_left rhs) (hcontracts.app_left rhs) hrefuses hstop
  | depth hruns hfault hnotes => exact .depth (hruns.app_left rhs) hfault hnotes
  | fuel hruns hfault hfuel =>
    dsimp only at hfuel
    exact .fuel (hruns.app_left rhs) hfault (by dsimp only; omega)

theorem Halts.app_right {lhs rhs : Term} {p : Progress β} (hlhs : lhs.step = none)
    (h : reducer.Halts fuel room (rhs, p) fault stop) :
    reducer.Halts (fuel + 1) (room + 1) (.app lhs rhs, p) fault stop := by
  cases h with
  | refused hruns hcontracts hrefuses hstop =>
    exact .refused (hruns.app_right hlhs) (hcontracts.app_right hlhs) hrefuses hstop
  | depth hruns hfault hnotes => exact .depth (hruns.app_right hlhs) hfault hnotes
  | fuel hruns hfault hfuel =>
    dsimp only at hfuel
    exact .fuel (hruns.app_right hlhs) hfault (by dsimp only; omega)

theorem Halts.exists_runs {s : Term × Progress β} (h : reducer.Halts fuel room s fault stop) :
    ∃ u progress, reducer.Runs s (u, progress) ∧ stop.notes = progress.notes := by
  cases h with
  | refused hruns hcontracts hrefuses hstop =>
    exact ⟨_, _, hruns, by rw [hstop]⟩
  | depth hruns hfault hnotes => exact ⟨_, _, hruns, hnotes⟩
  | fuel hruns hfault hfuel => exact ⟨_, _, hruns, rfl⟩

end Halts

/-! ### One contraction -/

/-- Nothing but the depth of three terms decides whether a contraction is made. -/
theorem contractum_eq (value body : Term) :
    contractum value body
      = if Term.maxDepth < value.depth ∨ Term.maxDepth < body.depth ∨
          Term.maxDepth < (Term.instantiate value body 0).depth then .error .depthExceeded
        else .ok (Term.instantiate value body 0) := by
  rw [contractum, Term.contract_eq]
  by_cases hdeep : Term.maxDepth < value.depth ∨ Term.maxDepth < body.depth
  · have hany : Term.maxDepth < value.depth ∨ Term.maxDepth < body.depth ∨
        Term.maxDepth < (Term.instantiate value body 0).depth := by
      omega
    simp only [Bool.or_eq_true, decide_eq_true_eq, if_pos hdeep, if_pos hany]
    rfl
  · simp only [Bool.or_eq_true, decide_eq_true_eq, if_neg hdeep]
    by_cases hresult : Term.maxDepth < (Term.instantiate value body 0).depth
    · rw [if_pos (Or.inr (Or.inr hresult))]
      simp only [bind, Except.bind, pure, Except.pure, if_pos hresult]
      rfl
    · rw [if_neg (by omega)]
      simp only [bind, Except.bind, pure, Except.pure, if_neg hresult]

theorem contractum_cases (value body : Term) :
    contractum value body = .ok (Term.instantiate value body 0) ∨
      contractum value body = .error .depthExceeded := by
  rw [contractum_eq]
  split
  · exact .inr rfl
  · exact .inl rfl

variable (reducer) in
theorem contract_apply (value body : Term) (progress : Progress β) :
    reducer.contract value body progress =
      match reducer.objection? (progress.steps + 1), contractum value body with
      | some fault, _ => .error fault { progress with steps := progress.steps + 1 }
      | none, .error fault => .error fault { progress with steps := progress.steps + 1 }
      | none, .ok t =>
        match reducer.watch t with
        | .error fault => .error fault { progress with steps := progress.steps + 1 }
        | .ok note => .ok t ⟨progress.steps + 1, note.toList ++ progress.notes⟩ := by
  refine (bind_eq_of_eq_ok _ rfl).trans ((bind_eq_of_eq_ok _ rfl).trans ?_)
  cases reducer.objection? (progress.steps + 1) with
  | some fault => rfl
  | none =>
    cases contractum value body with
    | error fault => rfl
    | ok t => cases hwatch : reducer.watch t <;> simp only [hwatch] <;> rfl

theorem contract_ends (param : String) (body : Term) {value : Term} (hvalue : value.step = none)
    (fuel room : Nat) (progress : Progress β) :
    Ends (reducer.contract value body) progress
      (fun t stop => reducer.Moves (.app (.lam param body) value, progress) (t, stop))
      (reducer.Halts fuel room (.app (.lam param body) value, progress)) := by
  have hcontracts := Term.Contracts.redex param body hvalue
  rw [Ends, contract_apply]
  cases hobjection : reducer.objection? (progress.steps + 1) with
  | some fault => exact .refused .refl hcontracts (.inl hobjection) rfl
  | none =>
    rcases contractum_cases value body with hcontractum | hcontractum
    · rw [hcontractum]
      cases hwatch : reducer.watch (Term.instantiate value body 0) with
      | error fault =>
        simp only [hwatch]
        exact .refused .refl hcontracts (.inr ⟨hobjection, hwatch⟩) rfl
      | ok note =>
        simp only [hwatch]
        exact ⟨_, note, hcontracts, hobjection, hwatch, rfl⟩
    · rw [hcontractum]
      exact .depth .refl rfl rfl

/-! ### Evaluations -/

theorem reduceWithin_ends (fuel room : Nat) (t : Term) (progress : Progress β) :
    Ends (reducer.reduceWithin fuel room t) progress
      (fun r stop => reducer.Runs (t, progress) (r, stop) ∧ r.step = none)
      (reducer.Halts fuel room (t, progress)) := by
  induction fuel generalizing room t progress with
  | zero =>
    cases t with
    | app lhs rhs => exact .faults rfl (.fuel .refl rfl (by dsimp only; omega))
    | _ => exact .returns rfl ⟨.refl, rfl⟩
  | succ fuel ih =>
    cases t with
    | app lhs rhs =>
      cases room with
      | zero => exact .faults rfl (.depth .refl rfl rfl)
      | succ room =>
        refine ((ih room lhs progress).weaken fun _ _ h => h.app_left rhs).bind ?_
        rintro operator p ⟨hlhs, hoperator⟩
        have hleft := hlhs.app_left rhs
        refine ((ih room rhs p).weaken ?_).bind ?_
        · intro fault stop hstop
          exact (hstop.app_right hoperator).of_runs hleft
        · rintro operand q ⟨hrhs, hoperand⟩
          have hboth : reducer.Runs (.app lhs rhs, progress) (.app operator operand, q) :=
            hleft.trans (hrhs.app_right hoperator)
          cases operator with
          | lam param body =>
            refine ((contract_ends param body hoperand (fuel + 1) (room + 1) q).weaken
              fun _ _ h => h.of_runs hboth).bind ?_
            intro c p₁ hmoves
            refine ((ih (room + 1) c p₁).imp ?_).weaken ?_
            · rintro r stop ⟨hruns, hnormal⟩
              exact ⟨(hboth.tail hmoves).trans hruns, hnormal⟩
            · intro fault stop hstop
              exact (hstop.of_moves hmoves).of_runs hboth
          | _ =>
            exact .returns rfl ⟨hboth, Term.step_app_eq_none hoperator hoperand rfl⟩
    | _ => exact .returns rfl ⟨.refl, rfl⟩

end Reducer

end CallByValue
