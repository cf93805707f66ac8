import CallByValue.Proofs.Parser.Locality
import CallByValue.Proofs.Reduction.Lockstep
/-!
# Binder names never matter to an evaluation

Binders keep the names they were written with, through definitions, shifts and substitutions, but an
evaluation never looks at them. Two terms that differ in binder names alone have one shape and one
depth, and so have their contracta. They are evaluated in step, and a line that is read against
definitions that differ in binder names alone comes to queries that do, or to the same fault.
-/

namespace CallByValue

namespace Term

@[simp] theorem unnamed_lift (amount : Nat) (t : Term) (cutoff : Nat) :
    (lift amount t cutoff).unnamed = lift amount t.unnamed cutoff := by
  induction t generalizing cutoff with
  | var index =>
    rw [unnamed, lift]
    split <;> rfl
  | lam param body ih => rw [lift, unnamed, unnamed, lift, ih]
  | app lhs rhs ihl ihr => rw [lift, unnamed, unnamed, lift, ihl, ihr]

theorem unnamed_instantiate (value body : Term) (depth : Nat) :
    (instantiate value body depth).unnamed = instantiate value.unnamed body.unnamed depth := by
  induction body generalizing depth with
  | var index =>
    rw [unnamed, instantiate, instantiate]
    split
    · rfl
    · split
      · exact unnamed_lift depth value 0
      · rfl
  | lam param body ih => rw [instantiate, unnamed, unnamed, instantiate, ih]
  | app lhs rhs ihl ihr => rw [instantiate, unnamed, unnamed, instantiate, ihl, ihr]

theorem AlphaEq.compatible : Compatible AlphaEq where
  var _ := AlphaEq.refl _
  lam _ := alphaEq_lam.mpr
  app hl hr := alphaEq_app.mpr ⟨hl, hr⟩

theorem AlphaEq.lockstep : Lockstep AlphaEq where
  var := by
    intro index u h
    cases u with
    | var index' => exact ⟨index', rfl⟩
    | lam param body => cases (h : Term.var index = .lam "" body.unnamed)
    | app lhs rhs => cases (h : Term.var index = .app lhs.unnamed rhs.unnamed)
  lam := by
    intro param body u h
    cases u with
    | var index => cases (h : Term.lam "" body.unnamed = .var index)
    | lam param' body' => exact ⟨param', body', rfl⟩
    | app lhs rhs => cases (h : Term.lam "" body.unnamed = .app lhs.unnamed rhs.unnamed)
  parts := by
    intro lhs rhs u h
    cases u with
    | var index => cases (h : Term.app lhs.unnamed rhs.unnamed = .var index)
    | lam param body => cases (h : Term.app lhs.unnamed rhs.unnamed = .lam "" body.unnamed)
    | app lhs' rhs' => exact ⟨lhs', rhs', rfl, alphaEq_app.mp h⟩
  app hl hr := alphaEq_app.mpr ⟨hl, hr⟩
  instantiate := by
    intro param param' body body' value value' hbody hvalue
    have hbodies : body.unnamed = body'.unnamed := alphaEq_lam.mp hbody
    show (Term.instantiate value body 0).unnamed = (Term.instantiate value' body' 0).unnamed
    rw [unnamed_instantiate, unnamed_instantiate, hbodies, show value.unnamed = _ from hvalue]
  depth := by
    intro t u h
    rw [← depth_unnamed t, ← depth_unnamed u, show t.unnamed = u.unnamed from h]

end Term

theorem Query.Related.alphaEq {p q : Query} (h : Query.Related Term.AlphaEq p q) : p.AlphaEq q := by
  obtain ⟨hbody, hquery⟩ := h
  rw [hquery]
  cases p with
  | term t => exact congrArg Query.term hbody
  | definition name t => exact congrArg (Query.definition name) hbody

namespace Reducer

theorem silent_accepts (limit : Option Int) (veto : Option Fault) (c c' : Term)
    (_ : c.AlphaEq c') : (tracing limit veto false).watch.Accepts c ∧
      (tracing limit veto false).watch.Accepts c' :=
  ⟨⟨none, rfl⟩, none, rfl⟩

theorem run_alphaEq (limit : Option Int) (veto : Option Fault) {definitions other : Definitions}
    (h : ∀ name, Option.Rel Term.AlphaEq (definitions.find? name) (other.find? name))
    (expr : String) :
    ((tracing limit veto false).run definitions expr).Alike Query.AlphaEq
      ((tracing limit veto false).run other expr) := by
  rw [run, run]
  rcases parseBounded_related Term.AlphaEq.compatible (fun name _ => h name) with
    ⟨p, q, hp, hq, hrelated⟩ | ⟨fault, hfault, hfault'⟩
  · rw [hp, hq]
    have hvalues := evaluate_alike Term.AlphaEq.lockstep rfl rfl (silent_accepts limit veto) hrelated
    exact hvalues.imp fun _ _ hanswer => hanswer.alphaEq
  · rw [hfault, hfault']
    exact ⟨rfl, rfl⟩

/-- **Binder names never influence an evaluation.** Where every name is defined as the same term up
to binder names, or not at all, a line that is not traced comes to the same query up to binder names
after as many contractions, or to the same fault. And whatever was evaluated before, two terms that
are equal up to binder names come to results that are, or to the same fault, with the same count. -/
theorem binder_names_never_matter (limit : Option Int) (veto : Option Fault) :
    (∀ definitions other : Definitions,
      (∀ name, Option.Rel Term.AlphaEq (definitions.find? name) (other.find? name)) →
      ∀ expr, ((tracing limit veto false).run definitions expr).Alike Query.AlphaEq
        ((tracing limit veto false).run other expr)) ∧
    ∀ t u : Term, t.AlphaEq u → ∀ before before' : Progress String,
      Alike Term.AlphaEq SameCount ((tracing limit veto false).reduceNext t)
        ((tracing limit veto false).reduceNext u) before before' := by
  constructor
  · intro definitions other hdefinitions expr
    exact run_alphaEq limit veto hdefinitions expr
  · intro t u h before before'
    exact reduceNext_alike Term.AlphaEq.lockstep rfl rfl (silent_accepts limit veto) h before before'

/-- Where the binders of `k` have names that no line can hold, one of them empty, a line that uses
`k` twice comes to a definition after two contractions, as it does with the names `x` and `x`. And a
term that contracts to itself is stopped at the third contraction, whatever its binders are called. -/
theorem binder_names_never_matter_unnamed :
    (∃ query, ((tracing (some 2) none false).run
        (NameMap.empty.insert "k" (.lam "" (.lam "q y" (.var 1)))) "s = k k (\\z. z)").result
          = .ok query ∧
      query.AlphaEq (.definition "s" (.lam "x" (.lam "x" (.var 1)))) ∧
      ((tracing (some 2) none false).run
        (NameMap.empty.insert "k" (.lam "" (.lam "q y" (.var 1)))) "s = k k (\\z. z)").steps = 2) ∧
    ∃ stop, (tracing (some 2) none false).reduceNext
        (.app (.lam "" (.app (.var 0) (.var 0))) (.lam "1" (.app (.var 0) (.var 0)))) ⟨9, []⟩
          = .error (.diagnostic (.nonTermination "2")) stop ∧ stop.steps = 3 := by
  constructor
  · have hdefinitions (name : String) : Option.Rel Term.AlphaEq
        ((NameMap.empty.insert "k" (Term.lam "x" (.lam "x" (.var 1)))).find? name)
        ((NameMap.empty.insert "k" (Term.lam "" (.lam "q y" (.var 1)))).find? name) := by
      rw [NameMap.find?_insert, NameMap.find?_insert]
      split
      · exact .some rfl
      · exact .none
    have hresult : ((tracing (some 2) none false).run
        (NameMap.empty.insert "k" (.lam "x" (.lam "x" (.var 1)))) "s = k k (\\z. z)").result
          = .ok (.definition "s" (.lam "x" (.lam "x" (.var 1)))) := by
      decide +kernel
    have hsteps : ((tracing (some 2) none false).run
        (NameMap.empty.insert "k" (.lam "x" (.lam "x" (.var 1)))) "s = k k (\\z. z)").steps = 2 := by
      decide +kernel
    obtain ⟨hcount, halike⟩ :=
      (binder_names_never_matter (some 2) none).1 _ _ hdefinitions "s = k k (\\z. z)"
    rw [hresult] at halike
    revert halike
    cases ((tracing (some 2) none false).run
      (NameMap.empty.insert "k" (.lam "" (.lam "q y" (.var 1)))) "s = k k (\\z. z)").result with
    | error fault => exact False.elim
    | ok query =>
      intro halpha
      exact ⟨query, rfl, Eq.symm halpha, hcount.symm.trans hsteps⟩
  · have hnamed : (tracing (some 2) none false).reduceNext
        (.app (.lam "x" (.app (.var 0) (.var 0))) (.lam "x" (.app (.var 0) (.var 0)))) ⟨0, []⟩
          = .error (.diagnostic (.nonTermination "2")) ⟨3, []⟩ := rfl
    rcases ((binder_names_never_matter (some 2) none).2 _
        (.app (.lam "" (.app (.var 0) (.var 0))) (.lam "1" (.app (.var 0) (.var 0)))) rfl
        ⟨0, []⟩ ⟨9, []⟩).cases with
      ⟨r, p, r', p', hrun, -, -, -⟩ | ⟨fault, p, p', hrun, hrun', hcount⟩
    · cases hnamed.symm.trans hrun
    · cases hnamed.symm.trans hrun
      exact ⟨p', hrun', hcount.symm⟩

end Reducer

end CallByValue
