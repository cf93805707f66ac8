import CallByValue.Proofs.Ending
/-!
# Two pieces of work side by side

Some facts are about two runs: the same line read against two sets of definitions, or two terms
evaluated next to each other. `Alike` says that two pieces of work end in the same way, in a fault
that is the same for both or with values that belong together, and leave states that belong
together. As with a single run, the lemmas follow the way the work is put together.
-/

namespace CallByValue

variable {σ σ' α α' β β' : Type}

/-- Begun in `s` and in `s'`, both pieces of work give values that `values` relates, or both end in
the same fault. Either way they leave states that `states` relates. -/
def Alike (values : α → α' → Prop) (states : σ → σ' → Prop) (work : EStateM Fault σ α)
    (work' : EStateM Fault σ' α') (s : σ) (s' : σ') : Prop :=
  match work s, work' s' with
  | .ok a t, .ok a' t' => values a a' ∧ states t t'
  | .error fault t, .error fault' t' => fault = fault' ∧ states t t'
  | _, _ => False

variable {values : α → α' → Prop} {states : σ → σ' → Prop} {work : EStateM Fault σ α}
  {work' : EStateM Fault σ' α'} {s : σ} {s' : σ'}

theorem Alike.returns {a : α} {a' : α'} {t : σ} {t' : σ'} (hrun : work s = .ok a t)
    (hrun' : work' s' = .ok a' t') (hvalues : values a a') (hstates : states t t') :
    Alike values states work work' s s' := by
  rw [Alike, hrun, hrun']
  exact ⟨hvalues, hstates⟩

theorem Alike.faults {fault : Fault} {t : σ} {t' : σ'} (hrun : work s = .error fault t)
    (hrun' : work' s' = .error fault t') (hstates : states t t') :
    Alike values states work work' s s' := by
  rw [Alike, hrun, hrun']
  exact ⟨rfl, hstates⟩

/-- Two runs that are alike give two values, or the same fault twice. -/
theorem Alike.cases (h : Alike values states work work' s s') :
    (∃ a t a' t', work s = .ok a t ∧ work' s' = .ok a' t' ∧ values a a' ∧ states t t') ∨
    ∃ fault t t', work s = .error fault t ∧ work' s' = .error fault t' ∧ states t t' := by
  rw [Alike] at h
  split at h
  · next a t a' t' hrun hrun' => exact .inl ⟨a, t, a', t', hrun, hrun', h.1, h.2⟩
  · next fault t fault' t' hrun hrun' =>
    obtain ⟨rfl, hstates⟩ := h
    exact .inr ⟨fault, t, t', hrun, hrun', hstates⟩
  · exact h.elim

theorem Alike.of_eq {start : σ} {start' : σ'} {work₁ : EStateM Fault σ α}
    {work₁' : EStateM Fault σ' α'} (h : Alike values states work work' s s')
    (heq : work₁ start = work s) (heq' : work₁' start' = work' s') :
    Alike values states work₁ work₁' start start' := by
  rw [Alike, heq, heq']
  exact h

theorem Alike.bind {next : α → EStateM Fault σ β} {next' : α' → EStateM Fault σ' β'}
    {values' : β → β' → Prop} (h : Alike values states work work' s s')
    (hnext : ∀ a a' t t', values a a' → states t t' →
      Alike values' states (next a) (next' a') t t') :
    Alike values' states (work >>= next) (work' >>= next') s s' := by
  rcases h.cases with ⟨a, t, a', t', hrun, hrun', hvalues, hstates⟩ |
    ⟨fault, t, t', hrun, hrun', hstates⟩
  · exact (hnext a a' t t' hvalues hstates).of_eq (bind_eq_of_eq_ok next hrun)
      (bind_eq_of_eq_ok next' hrun')
  · exact .faults (bind_eq_of_eq_error next hrun) (bind_eq_of_eq_error next' hrun') hstates

end CallByValue
