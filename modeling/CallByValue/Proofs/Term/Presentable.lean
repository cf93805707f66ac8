import CallByValue.Named
import CallByValue.Proofs.Parser.Derivation
import CallByValue.Proofs.Reduction.Step
import CallByValue.Proofs.Term.Contraction
import CallByValue.Token.Lexer
/-!
# Presentable terms

A term is presentable if it is closed and all its binders have names that can be read. A line that is
read against presentable definitions stands for a presentable term, a step keeps a presentable term
presentable, and a presentable term that cannot move is a value. None of this depends on what is
asked of the names, so it is said for names of any kind.
-/

namespace CallByValue

namespace Term

/-- Closed up to `depth` binders around it, with `good` names for all binders. -/
structure ClosedWith (good : String → Prop) (depth : Nat) (t : Term) : Prop where
  closed : ClosedFrom depth t
  params : ∀ param ∈ t.params, good param

abbrev Presentable (t : Term) : Prop :=
  ClosedWith (Token.isWord · = true) 0 t

variable {good : String → Prop}

section Parts

variable {depth : Nat} {param : String} {lhs rhs body : Term}

theorem ClosedWith.mono {more : Nat} (h : ClosedWith good depth body) (hle : depth ≤ more) :
    ClosedWith good more body :=
  ⟨h.closed.mono hle, h.params⟩

theorem ClosedWith.imp {good' : String → Prop} (h : ClosedWith good depth body)
    (hgood : ∀ name, good name → good' name) : ClosedWith good' depth body :=
  ⟨h.closed, fun name hname => hgood name (h.params name hname)⟩

theorem closedWith_lam :
    ClosedWith good depth (lam param body) ↔ good param ∧ ClosedWith good (depth + 1) body := by
  constructor
  · rintro ⟨hclosed, hparams⟩
    exact ⟨hparams param List.mem_cons_self, hclosed,
      fun name hname => hparams name (List.mem_cons_of_mem _ hname)⟩
  · rintro ⟨hparam, hclosed, hparams⟩
    refine ⟨hclosed, ?_⟩
    intro name hname
    rcases List.mem_cons.mp hname with rfl | hname
    · exact hparam
    · exact hparams name hname

theorem closedWith_app :
    ClosedWith good depth (app lhs rhs) ↔
      ClosedWith good depth lhs ∧ ClosedWith good depth rhs := by
  constructor
  · rintro ⟨⟨hlhs, hrhs⟩, hparams⟩
    exact ⟨⟨hlhs, fun name hname => hparams name (List.mem_append_left _ hname)⟩,
      ⟨hrhs, fun name hname => hparams name (List.mem_append_right _ hname)⟩⟩
  · rintro ⟨⟨hlhs, hleft⟩, hrhs, hright⟩
    refine ⟨⟨hlhs, hrhs⟩, ?_⟩
    intro name hname
    exact (List.mem_append.mp hname).elim (hleft name) (hright name)

end Parts

/-! ### Steps -/

theorem ClosedWith.instantiate {value body : Term} (hvalue : ClosedWith good 0 value)
    (hbody : ClosedWith good 1 body) : ClosedWith good 0 (instantiate value body 0) := by
  refine ⟨hvalue.closed.instantiate hbody.closed, ?_⟩
  intro param hparam
  exact (mem_params_instantiate hparam).elim (hvalue.params param) (hbody.params param)

theorem Contracts.closedWith {t c u : Term} (h : t.Contracts c u) (ht : ClosedWith good 0 t) :
    ClosedWith good 0 c ∧ ClosedWith good 0 u := by
  induction t generalizing c u with
  | var index => cases h.step
  | lam param body ih => cases h.step
  | app lhs rhs ihl ihr =>
    obtain ⟨hlhs, hrhs⟩ := closedWith_app.mp ht
    rcases h.app_cases with ⟨l, hl, rfl⟩ | ⟨-, r, hr, rfl⟩ | ⟨-, param, body, rfl, rfl, rfl⟩
    · exact ⟨(ihl hl hlhs).1, closedWith_app.mpr ⟨(ihl hl hlhs).2, hrhs⟩⟩
    · exact ⟨(ihr hr hrhs).1, closedWith_app.mpr ⟨hlhs, (ihr hr hrhs).2⟩⟩
    · have hbody := hrhs.instantiate (closedWith_lam.mp hlhs).2
      exact ⟨hbody, hbody⟩

/-- A closed application that cannot move would have an operator that is a value, and could be
contracted. -/
theorem isValue_of_step_eq_none {t : Term} (hclosed : ClosedFrom 0 t) (h : t.step = none) :
    t.isValue = true := by
  induction t with
  | var index => exact absurd hclosed (Nat.not_lt_zero index)
  | lam param body ih => rfl
  | app lhs rhs ihl ihr =>
    rw [step_app, Option.or_eq_none_iff, Option.or_eq_none_iff, Option.map_eq_none_iff] at h
    obtain ⟨⟨hlhs, -⟩, hredex⟩ := h
    have hvalue := ihl hclosed.1 hlhs
    cases lhs with
    | lam param body => cases hredex
    | _ => cases hvalue

end Term

/-! ### Lines -/

theorem Named.closedWith_of_elaborate {good : String → Prop} {definitions : Definitions}
    (hdefinitions : ∀ name t, definitions.find? name = some t → t.ClosedWith good 0) {tree : Named}
    (hparams : ∀ param ∈ tree.params, good param) {scope : List String} {t : Term}
    (h : tree.elaborate definitions scope = some t) : t.ClosedWith good scope.length := by
  induction tree generalizing scope t with
  | var name =>
    rw [elaborate] at h
    split at h
    · next index hindex =>
      cases h
      obtain ⟨hlt, -⟩ := List.idxOf?_eq_some_iff.mp hindex
      exact ⟨hlt, by simp [Term.params]⟩
    · exact (hdefinitions name t h).mono (Nat.zero_le _)
  | lam param body ih =>
    rw [elaborate, Option.map_eq_some_iff] at h
    obtain ⟨b, hb, rfl⟩ := h
    have hbody := ih (fun name hname => hparams name (List.mem_cons_of_mem _ hname)) hb
    exact Term.closedWith_lam.mpr ⟨hparams param List.mem_cons_self, hbody⟩
  | app lhs rhs ihl ihr =>
    simp only [elaborate, bind, Option.bind_eq_some_iff] at h
    obtain ⟨l, hl, r, hr, happ⟩ := h
    cases happ
    exact Term.closedWith_app.mpr
      ⟨ihl (fun name hname => hparams name (List.mem_append_left _ hname)) hl,
        ihr (fun name hname => hparams name (List.mem_append_right _ hname)) hr⟩

end CallByValue
