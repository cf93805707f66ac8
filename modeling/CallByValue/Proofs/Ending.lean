import CallByValue.Fault
/-!
# How a piece of work ends

Parsers, evaluations and sessions all work on a state and can end in a fault, which leaves the state
as far as it had come. `Ends` says for a given start what holds after either ending, and the lemmas
follow the way such work is put together.
-/

namespace CallByValue

variable {σ α β : Type}

/-- Begun in the state `s`, the work gives a value and a state as in `ok`, or ends in a fault and a
state as in `fails`. -/
def Ends (work : EStateM Fault σ α) (s : σ) (ok : α → σ → Prop) (fails : Fault → σ → Prop) : Prop :=
  match work s with
  | .ok a s' => ok a s'
  | .error fault s' => fails fault s'

variable {work : EStateM Fault σ α} {s : σ} {ok : α → σ → Prop} {fails : Fault → σ → Prop}

theorem Ends.of_ok (h : Ends work s ok fails) {a : α} {s' : σ} (hrun : work s = .ok a s') :
    ok a s' := by
  rw [Ends, hrun] at h
  exact h

theorem Ends.of_error (h : Ends work s ok fails) {fault : Fault} {s' : σ}
    (hrun : work s = .error fault s') : fails fault s' := by
  rw [Ends, hrun] at h
  exact h

theorem Ends.intro (hok : ∀ a s', work s = .ok a s' → ok a s')
    (hfails : ∀ fault s', work s = .error fault s' → fails fault s') : Ends work s ok fails := by
  rw [Ends]
  split
  · next a s' hrun => exact hok a s' hrun
  · next fault s' hrun => exact hfails fault s' hrun

theorem Ends.returns {a : α} {s' : σ} (hrun : work s = .ok a s') (h : ok a s') :
    Ends work s ok fails := by
  rw [Ends, hrun]
  exact h

theorem Ends.faults {fault : Fault} {s' : σ} (hrun : work s = .error fault s')
    (h : fails fault s') : Ends work s ok fails := by
  rw [Ends, hrun]
  exact h

theorem Ends.of_eq {work' : EStateM Fault σ α} {s' : σ} (heq : work s = work' s')
    (h : Ends work' s' ok fails) : Ends work s ok fails := by
  rw [Ends, heq]
  exact h

theorem Ends.bind {next : α → EStateM Fault σ β} {ok' : β → σ → Prop}
    (h : Ends work s ok fails) (hnext : ∀ a s', ok a s' → Ends (next a) s' ok' fails) :
    Ends (work >>= next) s ok' fails := by
  cases hrun : work s with
  | ok a s' =>
    have hrest := hnext a s' (h.of_ok hrun)
    simpa only [Ends, Bind.bind, EStateM.bind, hrun] using hrest
  | error fault s' =>
    have hfault := h.of_error hrun
    simpa only [Ends, Bind.bind, EStateM.bind, hrun] using hfault

theorem exists_of_bind_eq_ok {next : α → EStateM Fault σ β} {b : β} {s' : σ}
    (h : (work >>= next) s = .ok b s') : ∃ a s₁, work s = .ok a s₁ ∧ next a s₁ = .ok b s' := by
  cases hrun : work s with
  | ok a s₁ =>
    simp only [Bind.bind, EStateM.bind, hrun] at h
    exact ⟨a, s₁, rfl, h⟩
  | error fault s₁ =>
    simp only [Bind.bind, EStateM.bind, hrun] at h
    cases h

theorem bind_eq_of_eq_ok (next : α → EStateM Fault σ β) {a : α} {s' : σ} (h : work s = .ok a s') :
    (work >>= next) s = next a s' := by
  simp only [Bind.bind, EStateM.bind, h]

theorem bind_eq_of_eq_error (next : α → EStateM Fault σ β) {fault : Fault} {s' : σ}
    (h : work s = .error fault s') : (work >>= next) s = .error fault s' := by
  simp only [Bind.bind, EStateM.bind, h]

theorem modifyGet_apply (f : σ → α × σ) (s : σ) :
    (modifyGet f : EStateM Fault σ α) s = .ok (f s).1 (f s).2 :=
  rfl

theorem mapM_cons_of_eq_ok {ι : Type} {f : ι → EStateM Fault σ α} {item : ι} {items : List ι} {a : α}
    {as : List α} {s' last : σ} (hfirst : f item s = .ok a s')
    (hrest : items.mapM f s' = .ok as last) : (item :: items).mapM f s = .ok (a :: as) last := by
  rw [List.mapM_cons]
  exact (bind_eq_of_eq_ok _ hfirst).trans (bind_eq_of_eq_ok _ hrest)

theorem Ends.bind_of_ok {next : α → EStateM Fault σ β} {ok' : β → σ → Prop} {a : α} {s' : σ}
    (hrun : work s = .ok a s') (h : Ends (next a) s' ok' fails) : Ends (work >>= next) s ok' fails :=
  .of_eq (bind_eq_of_eq_ok next hrun) h

theorem Ends.map {f : α → β} (h : Ends work s ok fails) :
    Ends (f <$> work) s (fun b s' => ∃ a, b = f a ∧ ok a s') fails := by
  cases hrun : work s with
  | ok a s' =>
    have hvalue := h.of_ok hrun
    simpa only [Ends, Functor.map, EStateM.map, hrun] using ⟨a, rfl, hvalue⟩
  | error fault s' =>
    have hfault := h.of_error hrun
    simpa only [Ends, Functor.map, EStateM.map, hrun] using hfault

theorem Ends.imp {ok' : α → σ → Prop} (h : Ends work s ok fails)
    (hok : ∀ a s', ok a s' → ok' a s') : Ends work s ok' fails :=
  .intro (fun a s' hrun => hok a s' (h.of_ok hrun)) fun _ _ hrun => h.of_error hrun

theorem Ends.weaken {fails' : Fault → σ → Prop} (h : Ends work s ok fails)
    (hfails : ∀ fault s', fails fault s' → fails' fault s') : Ends work s ok fails' :=
  .intro (fun _ _ hrun => h.of_ok hrun) fun fault s' hrun => hfails fault s' (h.of_error hrun)

theorem exists_of_except_bind_eq_ok {ε α β : Type} {work : Except ε α} {next : α → Except ε β}
    {b : β} (h : work >>= next = .ok b) : ∃ a, work = .ok a ∧ next a = .ok b := by
  cases work with
  | error fault => cases h
  | ok a => exact ⟨a, rfl, h⟩

/-- Without a state, a chain of work fails in its first link or behind it. -/
theorem cases_of_bind_eq_error {α β : Type} {work : Except Fault α} {next : α → Except Fault β}
    {fault : Fault} (h : work >>= next = .error fault) :
    work = .error fault ∨ ∃ a, work = .ok a ∧ next a = .error fault := by
  cases work with
  | error fault' =>
    cases h
    exact .inl rfl
  | ok a => exact .inr ⟨a, rfl, h⟩

/-- Work that can fail for some items only, always with the same fault, gives a value for each item
or fails because of one. -/
theorem mapM_cases {ι β : Type} {f : ι → Except Fault β} {g : ι → β} {fault : Fault}
    {good : ι → Prop} (h : ∀ item, f item = .ok (g item) ∨ f item = .error fault ∧ ¬ good item)
    (items : List ι) :
    items.mapM f = .ok (items.map g) ∨
      items.mapM f = .error fault ∧ ∃ item ∈ items, ¬ good item := by
  induction items with
  | nil => exact .inl rfl
  | cons item items ih =>
    rw [List.mapM_cons]
    rcases h item with hfirst | ⟨hfirst, hbad⟩
    · rcases ih with hrest | ⟨hrest, other, hother, hbad⟩
      · exact .inl (by rw [hfirst, hrest]; rfl)
      · exact .inr ⟨by rw [hfirst, hrest]; rfl, other, List.mem_cons_of_mem _ hother, hbad⟩
    · exact .inr ⟨by rw [hfirst]; rfl, item, List.mem_cons_self, hbad⟩

end CallByValue
