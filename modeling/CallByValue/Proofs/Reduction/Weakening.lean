import CallByValue.Proofs.Reduction.Lockstep
import CallByValue.Proofs.Term.Composition
/-!
# Evaluation commutes with moving the free variables

A term may be put under more binders than it was written for, which moves its free variables out, all
of them or those from some cutoff on. An evaluation does not notice: moving is a replacement, so it
commutes with every contraction, and it changes neither the shape of a term nor its depth. A term and
the moved one are evaluated in step, and since moving can be undone, what the moved one comes to says
what the other comes to.
-/

namespace CallByValue

namespace Term

theorem lift_eq_replace (amount : Nat) (t : Term) (cutoff : Nat) :
    lift amount t cutoff = t.replace (underBinder^[cutoff] fun index => .var (index + amount)) := by
  have hfixed : underBinder^[cutoff] Term.var = Term.var :=
    Function.iterate_fixed underBinder_var cutoff
  have hmoved (index : Nat) : lift amount (.var index) 0 = .var (index + amount) :=
    if_pos (Nat.zero_le index)
  have hreplaced := lift_replace .var amount t cutoff
  simpa only [hfixed, replace_var, hmoved] using hreplaced

/-- The free variables of a contractum may be moved before the contraction: those of the value from
the same cutoff on, and those of the body from one further in. -/
theorem lift_instantiate (amount : Nat) (value body : Term) (cutoff : Nat) :
    lift amount (instantiate value body 0) cutoff
      = instantiate (lift amount value cutoff) (lift amount body (cutoff + 1)) 0 := by
  rw [lift_eq_replace, lift_eq_replace, lift_eq_replace, replace_instantiate,
    Function.iterate_succ_apply']

theorem depth_lift (amount : Nat) (t : Term) (cutoff : Nat) :
    (lift amount t cutoff).depth = t.depth := by
  induction t generalizing cutoff with
  | var index =>
    rw [lift]
    split <;> rfl
  | lam param body ih => rw [lift, depth, depth, ih]
  | app lhs rhs ihl ihr => rw [lift, depth, depth, ihl, ihr]

/-- The second term is the first with its free variables moved. -/
def MovesTo (amount cutoff : Nat) (t u : Term) : Prop :=
  lift amount t cutoff = u

theorem MovesTo.lockstep (amount cutoff : Nat) : Lockstep (MovesTo amount cutoff) where
  var := by
    rintro index _ rfl
    rw [lift]
    split <;> exact ⟨_, rfl⟩
  lam := by
    rintro param body _ rfl
    exact ⟨param, lift amount body (cutoff + 1), rfl⟩
  parts := by
    rintro lhs rhs _ rfl
    exact ⟨_, _, rfl, rfl, rfl⟩
  app := by
    rintro lhs _ rhs _ rfl rfl
    rfl
  instantiate := by
    rintro param param' body body' value _ hbody rfl
    obtain ⟨-, hbody⟩ := lam.inj (show lam param (lift amount body (cutoff + 1)) = _ from hbody)
    rw [MovesTo, lift_instantiate, hbody]
  depth := by
    rintro t _ rfl
    exact (depth_lift amount t cutoff).symm

end Term

namespace Reducer

variable {β : Type}

/-- **Evaluation commutes with weakening.** Moving the free variables from a cutoff on never fails.
Under every limit the moved term comes to a result, moved in the same way, after a number of
contractions exactly if the term itself comes to that result after as many; and it is cut short by a
fault, such as the limit, exactly if the term itself is, at the same count. This holds whatever was
evaluated before, with any watcher that does not fail. -/
theorem reduceNext_shift (reducer : Reducer β) (hwatch : ∀ c, reducer.watch.Accepts c) (t : Term)
    (amount cutoff : Nat) (before before' : Progress β) :
    ∃ moved, t.shift amount cutoff = .ok moved ∧
      (∀ r r' steps, r.shift amount cutoff = .ok r' →
        ((∃ stop, reducer.reduceNext moved before' = .ok r' stop ∧ stop.steps = steps) ↔
          ∃ stop, reducer.reduceNext t before = .ok r stop ∧ stop.steps = steps)) ∧
      ∀ fault steps,
        (∃ stop, reducer.reduceNext moved before' = .error fault stop ∧ stop.steps = steps) ↔
          ∃ stop, reducer.reduceNext t before = .error fault stop ∧ stop.steps = steps := by
  refine ⟨Term.lift amount t cutoff, Term.shift_natCast amount t cutoff, ?_⟩
  have hrun := reduceNext_alike (Term.MovesTo.lockstep amount cutoff) rfl rfl
    (fun c c' _ => ⟨hwatch c, hwatch c'⟩) (rfl : Term.MovesTo amount cutoff t _) before before'
  rcases hrun.cases with ⟨v, p, _, p', hv, hv', rfl, hcount⟩ | ⟨cause, p, p', hv, hv', hcount⟩
  · rw [hv, hv']
    constructor
    · intro r r' steps hr
      cases (Term.shift_natCast amount r cutoff).symm.trans hr
      constructor
      · rintro ⟨stop, hstop, rfl⟩
        obtain ⟨hresult, rfl⟩ := EStateM.Result.ok.inj hstop
        exact ⟨p, by rw [Term.lift_injective hresult], hcount⟩
      · rintro ⟨stop, hstop, rfl⟩
        obtain ⟨rfl, rfl⟩ := EStateM.Result.ok.inj hstop
        exact ⟨p', rfl, hcount.symm⟩
    · intro fault steps
      exact ⟨by rintro ⟨_, ⟨⟩, -⟩, by rintro ⟨_, ⟨⟩, -⟩⟩
  · rw [hv, hv']
    constructor
    · intro r r' steps hr
      exact ⟨by rintro ⟨_, ⟨⟩, -⟩, by rintro ⟨_, ⟨⟩, -⟩⟩
    · intro fault steps
      constructor
      · rintro ⟨stop, hstop, rfl⟩
        obtain ⟨rfl, rfl⟩ := EStateM.Result.error.inj hstop
        exact ⟨p, rfl, hcount⟩
      · rintro ⟨stop, hstop, rfl⟩
        obtain ⟨rfl, rfl⟩ := EStateM.Result.error.inj hstop
        exact ⟨p', rfl, hcount.symm⟩

/-- A term with two free variables, of which the inner one stays. It takes two contractions, also
when the outer variable is moved, and a limit of one is blamed at the second. -/
theorem reduceNext_shift_open :
    Term.shift 3 (.app (.lam "x" (.app (.var 0) (.var 2))) (.app (.lam "y" (.var 0)) (.var 0))) 1
      = .ok (.app (.lam "x" (.app (.var 0) (.var 5))) (.app (.lam "y" (.var 0)) (.var 0))) ∧
    (∃ stop, (⟨some 2, none, .terms⟩ : Reducer Term).reduceNext
        (.app (.lam "x" (.app (.var 0) (.var 5))) (.app (.lam "y" (.var 0)) (.var 0))) ⟨9, []⟩
      = .ok (.app (.var 0) (.var 4)) stop ∧ stop.steps = 2) ∧
    ∃ stop, (⟨some 1, none, .terms⟩ : Reducer Term).reduceNext
        (.app (.lam "x" (.app (.var 0) (.var 5))) (.app (.lam "y" (.var 0)) (.var 0))) ⟨9, []⟩
      = .error (.diagnostic (.nonTermination "1")) stop ∧ stop.steps = 2 := by
  obtain ⟨moved, hmoved, hresult, -⟩ := reduceNext_shift ⟨some 2, none, .terms⟩
    (fun c => ⟨some c, rfl⟩)
    (.app (.lam "x" (.app (.var 0) (.var 2))) (.app (.lam "y" (.var 0)) (.var 0))) 3 1
    ⟨0, []⟩ ⟨9, []⟩
  obtain ⟨moved', hmoved', -, hfault⟩ := reduceNext_shift ⟨some 1, none, .terms⟩
    (fun c => ⟨some c, rfl⟩)
    (.app (.lam "x" (.app (.var 0) (.var 2))) (.app (.lam "y" (.var 0)) (.var 0))) 3 1
    ⟨0, []⟩ ⟨9, []⟩
  cases hmoved
  cases hmoved'
  refine ⟨rfl, ?_, ?_⟩
  · exact (hresult (.app (.var 0) (.var 1)) _ 2 rfl).mpr ⟨_, rfl, rfl⟩
  · exact (hfault _ 2).mpr ⟨_, rfl, rfl⟩

end Reducer

end CallByValue
