import CallByValue.Proofs.Parser.Related
import CallByValue.Proofs.Reduction.Limit
/-!
# Two evaluations in step

An evaluator looks at the shape of a term, at its depth and at the count of contractions, and at
nothing else. Two terms that a relation keeps in one shape and at one depth, contraction after
contraction, are therefore evaluated in step: both come to related results, or both are cut short by
the same fault, and after as many contractions. A watcher makes no difference as long as it fails at
none of the contracta.
-/

namespace CallByValue

namespace Term

/-- A relation between terms of one shape and depth that a contraction carries on. -/
structure Lockstep (R : Term → Term → Prop) : Prop where
  var : ∀ {index u}, R (.var index) u → ∃ index', u = .var index'
  lam : ∀ {param body u}, R (.lam param body) u → ∃ param' body', u = .lam param' body'
  parts : ∀ {lhs rhs u}, R (.app lhs rhs) u →
    ∃ lhs' rhs', u = .app lhs' rhs' ∧ R lhs lhs' ∧ R rhs rhs'
  app : ∀ {lhs lhs' rhs rhs'}, R lhs lhs' → R rhs rhs' → R (.app lhs rhs) (.app lhs' rhs')
  instantiate : ∀ {param param' body body' value value'},
    R (.lam param body) (.lam param' body') → R value value' →
    R (instantiate value body 0) (instantiate value' body' 0)
  depth : ∀ {t u}, R t u → t.depth = u.depth

theorem Lockstep.depth_body {R : Term → Term → Prop} (hR : Lockstep R) {param param' : String}
    {body body' : Term} (h : R (.lam param body) (.lam param' body')) :
    body.depth = body'.depth := by
  have hdepth : body.depth + 1 = body'.depth + 1 := hR.depth h
  omega

end Term

/-- Both evaluations took the same number of contractions, and ended with values that `values`
relates or in the same fault. -/
def Outcome.Alike {α α' β β' : Type} (values : α → α' → Prop) (outcome : Outcome α β)
    (outcome' : Outcome α' β') : Prop :=
  outcome.steps = outcome'.steps ∧
    match outcome.result, outcome'.result with
    | .ok a, .ok a' => values a a'
    | .error fault, .error fault' => fault = fault'
    | _, _ => False

theorem Outcome.Alike.imp {α α' β β' : Type} {values values' : α → α' → Prop}
    {outcome : Outcome α β} {outcome' : Outcome α' β'} (h : outcome.Alike values outcome')
    (himp : ∀ a a', values a a' → values' a a') : outcome.Alike values' outcome' := by
  obtain ⟨hcount, hresult⟩ := h
  refine ⟨hcount, ?_⟩
  revert hresult
  cases outcome.result <;> cases outcome'.result
  · exact id
  · exact id
  · exact id
  · exact himp _ _

namespace Reducer

variable {β β' : Type} {R : Term → Term → Prop} {reducer : Reducer β} {reducer' : Reducer β'}

/-- The two evaluations have counted the same number of contractions. -/
def SameCount (p : Progress β) (p' : Progress β') : Prop :=
  p.steps = p'.steps

theorem contractum_alike (hR : Term.Lockstep R) {param param' : String}
    {body body' value value' : Term} (hbody : R (.lam param body) (.lam param' body'))
    (hvalue : R value value') :
    (∃ c c', contractum value body = .ok c ∧ contractum value' body' = .ok c' ∧ R c c') ∨
      contractum value body = .error .depthExceeded ∧
        contractum value' body' = .error .depthExceeded := by
  have hresult := hR.instantiate hbody hvalue
  rw [contractum_eq, contractum_eq, ← hR.depth hvalue, ← hR.depth_body hbody, ← hR.depth hresult]
  split
  · exact .inr ⟨rfl, rfl⟩
  · exact .inl ⟨_, _, rfl, rfl, hresult⟩

variable (hR : Term.Lockstep R) (hlimit : reducer.limit = reducer'.limit)
  (hveto : reducer.veto = reducer'.veto)
  (hwatch : ∀ c c', R c c' → reducer.watch.Accepts c ∧ reducer'.watch.Accepts c')

include hlimit hveto in
theorem objection?_congr (steps : Nat) : reducer.objection? steps = reducer'.objection? steps := by
  rw [objection?, objection?, hlimit, hveto]

include hR hlimit hveto hwatch

theorem contract_alike {param param' : String} {body body' value value' : Term}
    (hbody : R (.lam param body) (.lam param' body')) (hvalue : R value value')
    {p : Progress β} {p' : Progress β'} (hcount : SameCount p p') :
    Alike R SameCount (reducer.contract value body) (reducer'.contract value' body') p p' := by
  have hrun := reducer.contract_apply value body p
  have hrun' := reducer'.contract_apply value' body' p'
  rw [← show p.steps = p'.steps from hcount, ← objection?_congr hlimit hveto] at hrun'
  cases hobjection : reducer.objection? (p.steps + 1) with
  | some fault =>
    rw [hobjection] at hrun hrun'
    exact .faults hrun hrun' rfl
  | none =>
    rw [hobjection] at hrun hrun'
    rcases contractum_alike hR hbody hvalue with ⟨c, c', hc, hc', hrelated⟩ | ⟨hdeep, hdeep'⟩
    · obtain ⟨⟨note, hnote⟩, note', hnote'⟩ := hwatch c c' hrelated
      simp only [hc, hnote] at hrun
      simp only [hc', hnote'] at hrun'
      exact .returns hrun hrun' hrelated rfl
    · rw [hdeep] at hrun
      rw [hdeep'] at hrun'
      exact .faults hrun hrun' rfl

theorem reduceWithin_alike (fuel room : Nat) {t u : Term} (h : R t u) {p : Progress β}
    {p' : Progress β'} (hcount : SameCount p p') :
    Alike R SameCount (reducer.reduceWithin fuel room t) (reducer'.reduceWithin fuel room u)
      p p' := by
  induction fuel generalizing room t u p p' with
  | zero =>
    cases t with
    | var index =>
      obtain ⟨index', rfl⟩ := hR.var h
      exact .returns rfl rfl h hcount
    | lam param body =>
      obtain ⟨param', body', rfl⟩ := hR.lam h
      exact .returns rfl rfl h hcount
    | app lhs rhs =>
      obtain ⟨lhs', rhs', rfl, -, -⟩ := hR.parts h
      exact .faults rfl rfl hcount
  | succ fuel ih =>
    cases t with
    | var index =>
      obtain ⟨index', rfl⟩ := hR.var h
      exact .returns rfl rfl h hcount
    | lam param body =>
      obtain ⟨param', body', rfl⟩ := hR.lam h
      exact .returns rfl rfl h hcount
    | app lhs rhs =>
      obtain ⟨lhs', rhs', rfl, hlhs, hrhs⟩ := hR.parts h
      cases room with
      | zero => exact .faults rfl rfl hcount
      | succ room =>
        apply Alike.bind (ih room hlhs hcount)
        intro operator operator' p₁ p₁' hoperator hcount₁
        apply Alike.bind (ih room hrhs hcount₁)
        intro operand operand' p₂ p₂' hoperand hcount₂
        cases operator with
        | lam param body =>
          obtain ⟨param', body', rfl⟩ := hR.lam hoperator
          apply Alike.bind
            (contract_alike hR hlimit hveto hwatch hoperator hoperand hcount₂)
          intro c c' p₃ p₃' hc hcount₃
          exact ih (room + 1) hc hcount₃
        | var index =>
          obtain ⟨index', rfl⟩ := hR.var hoperator
          exact .returns rfl rfl (hR.app hoperator hoperand) hcount₂
        | app l r =>
          obtain ⟨l', r', rfl, -, -⟩ := hR.parts hoperator
          exact .returns rfl rfl (hR.app hoperator hoperand) hcount₂

/-- Whatever was evaluated before, related terms are evaluated in step. -/
theorem reduceNext_alike {t u : Term} (h : R t u) (before : Progress β) (before' : Progress β') :
    Alike R SameCount (reducer.reduceNext t) (reducer'.reduceNext u) before before' := by
  have hfuel : reducer'.fuel = reducer.fuel := by rw [fuel, fuel, hlimit]
  have hrun := reduceWithin_alike hR hlimit hveto hwatch reducer.fuel Term.maxDepth h
    (show SameCount { before with steps := 0 } { before' with steps := 0 } from rfl)
  apply hrun.of_eq rfl
  show reducer'.reduceWithin reducer'.fuel Term.maxDepth u _ = _
  rw [hfuel]

theorem reduce_alike {t u : Term} (h : R t u) :
    (reducer.reduce t).Alike R (reducer'.reduce u) := by
  rw [Outcome.Alike, reduce, reduce]
  rcases (reduceNext_alike hR hlimit hveto hwatch h ⟨0, []⟩ ⟨0, []⟩).cases with
    ⟨r, p, r', p', hrun, hrun', hresult, hcount⟩ | ⟨fault, p, p', hrun, hrun', hcount⟩
  · rw [hrun, hrun']
    exact ⟨hcount, hresult⟩
  · rw [hrun, hrun']
    exact ⟨hcount, rfl⟩

theorem evaluate_alike {p q : Query} (h : Query.Related R p q) :
    (reducer.evaluate p).Alike (Query.Related R) (reducer'.evaluate q) := by
  obtain ⟨hbody, hquery⟩ := h
  obtain ⟨hcount, hresult⟩ := reduce_alike hR hlimit hveto hwatch hbody
  refine ⟨hcount, ?_⟩
  simp only [evaluate]
  revert hresult
  cases (reducer.reduce p.body).result <;> cases (reducer'.reduce q.body).result
  all_goals intro hresult
  · exact hresult
  · exact hresult
  · exact hresult
  · next r r' =>
    rw [hquery]
    cases p <;> exact ⟨hresult, rfl⟩

end Reducer

end CallByValue
