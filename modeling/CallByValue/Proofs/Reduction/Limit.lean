import CallByValue.Proofs.Reduction.Simulation
import CallByValue.Proofs.Writable
/-!
# How far an evaluation comes

An evaluation with a limit follows the row of steps of its term, and nothing but the row decides how
it ends: it gives the term at the end of the row if the row is no longer than the limit, and blames
the limit at the first contraction beyond it. A watcher that fails at one of the contracta ends the
evaluation there. A limit that is not reached makes no difference.
-/

namespace CallByValue

/-- The watcher notes something about the contractum, or nothing, but does not fail. -/
def Watcher.Accepts {β : Type} (watch : Watcher β) (c : Term) : Prop :=
  ∃ note, watch c = .ok note

/-- What the watcher notes about a row of contracta, in order. -/
def Watcher.noted {β : Type} (watch : Watcher β) (cs : List Term) : List β :=
  cs.filterMap fun c => (watch c).toOption.join

theorem Watcher.noted_append {β : Type} (watch : Watcher β) (front back : List Term) :
    watch.noted (front ++ back) = watch.noted front ++ watch.noted back :=
  List.filterMap_append

namespace Reducer

variable {β : Type} {reducer : Reducer β}

/-- A run follows the row of steps. -/
structure Follows (reducer : Reducer β) (t : Term) (start : Progress β) (count : Nat) (u : Term)
    (stop : Progress β) : Prop where
  steps : Term.steps count t = some u
  accepts : ∀ c ∈ Term.contracta count t, reducer.watch.Accepts c
  allowed : ∀ i < count, reducer.objection? (start.steps + i + 1) = none
  stop_eq : stop = ⟨start.steps + count,
    (reducer.watch.noted (Term.contracta count t)).reverse ++ start.notes⟩

theorem Follows.moves {t u v : Term} {start progress stop : Progress β} {count : Nat}
    (h : reducer.Follows t start count u progress)
    (hmoves : reducer.Moves (u, progress) (v, stop)) :
    reducer.Follows t start (count + 1) v stop := by
  obtain ⟨c, note, hcontracts, hobjection, hwatch, hstop⟩ := hmoves
  have hrow : Term.contracta (count + 1) t = Term.contracta count t ++ [c] := by
    rw [Term.contracta_add h.steps, Term.contracta_succ hcontracts, Term.contracta]
  refine ⟨?_, ?_, ?_, ?_⟩
  · rw [Term.steps_add, h.steps, Option.bind_some, Term.steps, hcontracts.step]
    rfl
  · intro c' hc'
    rw [hrow, List.mem_append, List.mem_singleton] at hc'
    rcases hc' with hc' | rfl
    · exact h.accepts c' hc'
    · exact ⟨note, hwatch⟩
  · intro i hi
    rcases Nat.lt_succ_iff_lt_or_eq.mp hi with hlt | rfl
    · exact h.allowed i hlt
    · have hcount : progress.steps = start.steps + i := by rw [h.stop_eq]
      rw [← hcount]
      exact hobjection
  · have hnote : (reducer.watch.noted [c]).reverse = note.toList := by
      cases note <;> simp [Watcher.noted, hwatch, Except.toOption]
    have hnotes : (reducer.watch.noted (Term.contracta (count + 1) t)).reverse
        = note.toList ++ (reducer.watch.noted (Term.contracta count t)).reverse := by
      rw [hrow, Watcher.noted_append, List.reverse_append, hnote]
    change stop = _ at hstop
    rw [hstop, hnotes, h.stop_eq, List.append_assoc]
    rfl

theorem Runs.follows {t u : Term} {start stop : Progress β}
    (h : reducer.Runs (t, start) (u, stop)) :
    ∃ count, reducer.Follows t start count u stop := by
  generalize hs : ((u, stop) : Term × Progress β) = s at h
  induction h generalizing u stop with
  | refl =>
    cases hs
    exact ⟨0, rfl, by simp [Term.contracta], by simp, rfl⟩
  | @tail s s' _ hmoves ih =>
    subst hs
    obtain ⟨count, hfollows⟩ := ih rfl
    exact ⟨count + 1, hfollows.moves hmoves⟩

/-- Nothing but a limit speaks against contractions, if they are not forbidden altogether. -/
theorem exists_limit_of_objection? (hveto : reducer.veto = none) {steps : Nat} {fault : Fault}
    (h : reducer.objection? steps = some fault) :
    ∃ limit, reducer.limit = some limit ∧ fault = .nonTermination limit := by
  rw [objection?, hveto, Option.none_or] at h
  split at h
  · next limit hlimit =>
    split at h
    · cases h
      exact ⟨limit, hlimit, rfl⟩
    · cases h
  · cases h

/-! ### With a limit -/

section Limited

variable {limit : Int} (hveto : reducer.veto = none) (hlimit : reducer.limit = some limit)

include hveto hlimit

theorem objection?_eq (steps : Nat) :
    reducer.objection? steps
      = if limit < steps then some (.nonTermination limit) else none := by
  rw [objection?, hveto, hlimit, Option.none_or]

theorem objection?_eq_none_iff {steps : Nat} :
    reducer.objection? steps = none ↔ (steps : Int) ≤ limit := by
  rw [objection?_eq hveto hlimit]
  split <;> simp <;> omega

theorem objection?_eq_some_iff {steps : Nat} {fault : Fault} :
    reducer.objection? steps = some fault ↔
      limit < steps ∧ fault = .nonTermination limit := by
  rw [objection?_eq hveto hlimit]
  split
  · next hlt => simp [hlt, eq_comm]
  · next hlt => simp [hlt]

variable {t : Term} {before : Progress β}

theorem Follows.le_limit {u : Term} {count : Nat} {stop : Progress β}
    (h : reducer.Follows t { before with steps := 0 } count u stop) : count ≤ limit.toNat := by
  cases count with
  | zero => exact Nat.zero_le _
  | succ count =>
    have hallowed := h.allowed count (Nat.lt_succ_self count)
    rw [objection?_eq_none_iff hveto hlimit] at hallowed
    dsimp only at hallowed
    omega

/-- Running out of fuel takes more contractions than the limit allows. -/
theorem Runs.lt_fuel {u : Term} {stop : Progress β}
    (h : reducer.Runs (t, { before with steps := 0 }) (u, stop)) :
    Term.maxDepth + stop.steps < reducer.fuel := by
  obtain ⟨count, hfollows⟩ := h.follows
  have hle := hfollows.le_limit hveto hlimit
  rw [hfollows.stop_eq, fuel, hlimit]
  dsimp only
  omega

theorem follows_of_reduceNext {r : Term} {stop : Progress β}
    (h : reducer.reduceNext t before = .ok r stop) :
    r.step = none ∧ ∃ count ≤ limit.toNat,
      reducer.Follows t { before with steps := 0 } count r stop := by
  obtain ⟨hruns, hnormal⟩ := (reduceWithin_ends _ _ t { before with steps := 0 }).of_ok h
  obtain ⟨count, hfollows⟩ := hruns.follows
  exact ⟨hnormal, count, hfollows.le_limit hveto hlimit, hfollows⟩

/-- An evaluation that is cut short stands in front of a contraction, and either all that the limit
allows are made or the watcher fails at this one. -/
theorem follows_of_reduceNext_error {fault : Fault} {stop : Progress β}
    (h : reducer.reduceNext t before = .error fault stop) (hdepth : fault ≠ .depthExceeded) :
    ∃ count u c v progress, reducer.Follows t { before with steps := 0 } count u progress ∧
      u.Contracts c v ∧ stop = { progress with steps := count + 1 } ∧
      (count = limit.toNat ∧ fault = .nonTermination limit ∨
        count < limit.toNat ∧ reducer.watch c = .error fault) := by
  cases (reduceWithin_ends _ _ t { before with steps := 0 }).of_error h with
  | depth hruns hfault hnotes => exact absurd hfault hdepth
  | fuel hruns hfault hfuel =>
    exact absurd hfuel (Nat.not_le_of_lt (hruns.lt_fuel hveto hlimit))
  | @refused u c v progress hruns hcontracts hrefuses hstop =>
    obtain ⟨count, hfollows⟩ := hruns.follows
    have hcount : progress.steps = count := by rw [hfollows.stop_eq, Nat.zero_add]
    rw [hcount] at hrefuses hstop
    have hle := hfollows.le_limit hveto hlimit
    refine ⟨count, u, c, v, progress, hfollows, hcontracts, hstop, ?_⟩
    rcases hrefuses with hobjection | ⟨hnone, hwatch⟩
    · obtain ⟨hlt, hfault⟩ := (objection?_eq_some_iff hveto hlimit).mp hobjection
      exact .inl ⟨by omega, hfault⟩
    · have hallowed := (objection?_eq_none_iff hveto hlimit).mp hnone
      exact .inr ⟨by omega, hwatch⟩

end Limited

/-! ### Without one -/

theorem steps_le_of_reduceWithin {fuel room : Nat} {t r : Term} {p q : Progress β}
    (h : reducer.reduceWithin fuel room t p = .ok r q) : p.steps ≤ q.steps :=
  ((reduceWithin_ends fuel room t p).of_ok h).1.steps_le

/-- An application gives what its contractum gives, or is stuck once both its parts are done. -/
theorem reduceWithin_app_eq_ok_iff {fuel room : Nat} {lhs rhs r : Term} {p q : Progress β} :
    reducer.reduceWithin (fuel + 1) (room + 1) (.app lhs rhs) p = .ok r q ↔
      ∃ operator p₁ operand p₂, reducer.reduceWithin fuel room lhs p = .ok operator p₁ ∧
        reducer.reduceWithin fuel room rhs p₁ = .ok operand p₂ ∧
        ((∃ param body c p₃, operator = .lam param body ∧
            reducer.contract operand body p₂ = .ok c p₃ ∧
            reducer.reduceWithin fuel (room + 1) c p₃ = .ok r q) ∨
          operator.isValue = false ∧ r = .app operator operand ∧ q = p₂) := by
  constructor
  · intro h
    obtain ⟨operator, p₁, hlhs, h⟩ := exists_of_bind_eq_ok h
    obtain ⟨operand, p₂, hrhs, h⟩ := exists_of_bind_eq_ok h
    refine ⟨operator, p₁, operand, p₂, hlhs, hrhs, ?_⟩
    cases operator with
    | lam param body =>
      obtain ⟨c, p₃, hcontract, h⟩ := exists_of_bind_eq_ok h
      exact .inl ⟨param, body, c, p₃, rfl, hcontract, h⟩
    | _ =>
      cases h
      exact .inr ⟨rfl, rfl, rfl⟩
  · rintro ⟨operator, p₁, operand, p₂, hlhs, hrhs, h⟩
    refine (bind_eq_of_eq_ok _ hlhs).trans ((bind_eq_of_eq_ok _ hrhs).trans ?_)
    rcases h with ⟨param, body, c, p₃, rfl, hcontract, h⟩ | ⟨hvalue, rfl, rfl⟩
    · exact (bind_eq_of_eq_ok _ hcontract).trans h
    · cases operator with
      | lam param body => cases hvalue
      | _ => rfl

theorem steps_eq_of_contract {value body t : Term} {p q : Progress β}
    (h : reducer.contract value body p = .ok t q) : q.steps = p.steps + 1 := by
  rw [contract_apply] at h
  split at h
  · cases h
  · cases h
  · split at h
    · cases h
    · cases h
      rfl

section Allowed

variable {reducer' : Reducer β} (hwatch : reducer'.watch = reducer.watch)

include hwatch

theorem contract_eq_ok_of_allowed {value body t : Term} {p q : Progress β}
    (h : reducer.contract value body p = .ok t q)
    (hallowed : reducer'.objection? (p.steps + 1) = none) :
    reducer'.contract value body p = .ok t q := by
  rw [contract_apply] at h ⊢
  rw [hallowed, hwatch]
  split at h
  · cases h
  · cases h
  · next hcontractum =>
    rw [hcontractum]
    exact h

/-- An evaluation that gives a result gives the same one with other fuel and another limit, if there
is fuel enough and nothing speaks against its contractions. -/
theorem reduceWithin_eq_ok_of_allowed {fuel fuel' room : Nat} {t r : Term} {p q : Progress β}
    (h : reducer.reduceWithin fuel room t p = .ok r q)
    (hfuel : room + q.steps < fuel' + p.steps)
    (hallowed : ∀ steps ≤ q.steps, reducer'.objection? steps = none) :
    reducer'.reduceWithin fuel' room t p = .ok r q := by
  induction fuel generalizing fuel' room t r p q with
  | zero =>
    cases t with
    | app lhs rhs => cases h
    | _ =>
      cases h
      cases fuel' <;> rfl
  | succ fuel ih =>
    cases t with
    | app lhs rhs =>
      have hle := steps_le_of_reduceWithin h
      obtain ⟨fuel', rfl⟩ : ∃ less, fuel' = less + 1 := Nat.exists_eq_succ_of_ne_zero (by omega)
      cases room with
      | zero => cases h
      | succ room =>
        obtain ⟨operator, p₁, operand, p₂, hlhs, hrhs, h⟩ := reduceWithin_app_eq_ok_iff.mp h
        have hle₁ := steps_le_of_reduceWithin hlhs
        have hle₂ := steps_le_of_reduceWithin hrhs
        have hend : p₂.steps ≤ q.steps := by
          rcases h with ⟨param, body, c, p₃, rfl, hcontract, h⟩ | ⟨-, -, rfl⟩
          · have hle₃ := steps_le_of_reduceWithin h
            have hcount := steps_eq_of_contract hcontract
            omega
          · exact Nat.le_refl _
        refine reduceWithin_app_eq_ok_iff.mpr ⟨operator, p₁, operand, p₂, ?_, ?_, ?_⟩
        · exact ih hlhs (by omega) fun steps hsteps => hallowed steps (by omega)
        · exact ih hrhs (by omega) fun steps hsteps => hallowed steps (by omega)
        · rcases h with ⟨param, body, c, p₃, rfl, hcontract, h⟩ | hstuck
          · have hle₃ := steps_le_of_reduceWithin h
            have hcount := steps_eq_of_contract hcontract
            refine .inl ⟨param, body, c, p₃, rfl, ?_, ?_⟩
            · exact contract_eq_ok_of_allowed hwatch hcontract (hallowed _ (by omega))
            · exact ih h (by omega) hallowed
          · exact .inr hstuck
    | _ =>
      cases h
      cases fuel' <;> rfl

end Allowed

/-! ### The three endings -/

/-- A row can be cut in front of its first refused contractum in one way only. -/
theorem eq_of_append_cons_eq {watch : Watcher β} {front back front' back' : List Term}
    {c c' : Term} (h : front ++ c :: back = front' ++ c' :: back')
    (hfront : ∀ u ∈ front, watch.Accepts u) (hfront' : ∀ u ∈ front', watch.Accepts u)
    (hc : ¬ watch.Accepts c) (hc' : ¬ watch.Accepts c') : front = front' ∧ c = c' := by
  rcases List.append_eq_append_iff.mp h with ⟨middle, rfl, hrest⟩ | ⟨middle, rfl, hrest⟩
  · cases middle with
    | nil => exact ⟨(List.append_nil _).symm, (List.cons.inj hrest).1⟩
    | cons u middle =>
      cases (List.cons.inj hrest).1
      exact absurd (hfront' c (by simp)) hc
  · cases middle with
    | nil => exact ⟨List.append_nil _, (List.cons.inj hrest).1.symm⟩
    | cons u middle =>
      cases (List.cons.inj hrest).1
      exact absurd (hfront c' (by simp)) hc'

theorem not_accepts_of_error {watch : Watcher β} {c : Term} {fault : Fault}
    (h : watch c = .error fault) : ¬ watch.Accepts c := by
  rintro ⟨note, hnote⟩
  cases h.symm.trans hnote

section Endings

variable {limit : Int} (hveto : reducer.veto = none) (hlimit : reducer.limit = some limit)
  {t : Term} {before : Progress β}

include hveto hlimit

theorem steps_of_reduceNext {r : Term} {stop : Progress β}
    (h : reducer.reduceNext t before = .ok r stop) :
    ∃ count ≤ limit.toNat, Term.steps count t = some r ∧ r.step = none ∧
      (∀ c ∈ Term.contracta limit.toNat t, reducer.watch.Accepts c) ∧
      stop = ⟨count,
        (reducer.watch.noted (Term.contracta limit.toNat t)).reverse ++ before.notes⟩ := by
  obtain ⟨hnormal, count, hle, hfollows⟩ := follows_of_reduceNext hveto hlimit h
  rw [Term.contracta_eq_of_normal hfollows.steps hnormal hle]
  refine ⟨count, hle, hfollows.steps, hnormal, hfollows.accepts, ?_⟩
  rw [hfollows.stop_eq, Nat.zero_add]

variable (hdepth : ∀ stop, reducer.reduceNext t before ≠ .error .depthExceeded stop)

include hdepth

theorem reduceNext_of_steps {r : Term} {count : Nat} (hle : count ≤ limit.toNat)
    (hsteps : Term.steps count t = some r) (hnormal : r.step = none)
    (haccepts : ∀ c ∈ Term.contracta limit.toNat t, reducer.watch.Accepts c) :
    reducer.reduceNext t before = .ok r ⟨count,
      (reducer.watch.noted (Term.contracta limit.toNat t)).reverse ++ before.notes⟩ := by
  cases hrun : reducer.reduceNext t before with
  | ok r' stop' =>
    obtain ⟨count', -, hsteps', hnormal', -, rfl⟩ := steps_of_reduceNext hveto hlimit hrun
    obtain ⟨rfl, rfl⟩ := Term.steps_normal_unique hsteps hnormal hsteps' hnormal'
    rfl
  | error fault stop' =>
    -- The run stands in front of a contraction, so it has not come to the end of the row yet.
    obtain ⟨count', u, c, v, progress, hfollows, hcontracts, -, hcause⟩ :=
      follows_of_reduceNext_error hveto hlimit hrun fun hfault => hdepth stop' (hfault ▸ hrun)
    have hle' := Term.le_of_steps hfollows.steps hsteps hnormal
    have hne : count' ≠ count := by
      rintro rfl
      cases hfollows.steps.symm.trans hsteps
      cases hcontracts.step.symm.trans hnormal
    rcases hcause with ⟨hcount, -⟩ | ⟨hlt, hwatch⟩
    · omega
    · obtain ⟨back, hrow⟩ := Term.contracta_eq_append_cons hfollows.steps hcontracts hlt
      exact absurd (haccepts c (by simp [hrow])) (not_accepts_of_error hwatch)

theorem reduceNext_of_refused {front back : List Term} {c : Term} {fault : Fault}
    (hrow : Term.contracta limit.toNat t = front ++ c :: back)
    (haccepts : ∀ u ∈ front, reducer.watch.Accepts u) (hwatch : reducer.watch c = .error fault) :
    reducer.reduceNext t before = .error fault
      ⟨front.length + 1, (reducer.watch.noted front).reverse ++ before.notes⟩ := by
  have hrefused := not_accepts_of_error hwatch
  cases hrun : reducer.reduceNext t before with
  | ok r stop =>
    obtain ⟨-, -, -, -, hall, -⟩ := steps_of_reduceNext hveto hlimit hrun
    exact absurd (hall c (by simp [hrow])) hrefused
  | error fault' stop =>
    obtain ⟨count, u, c', v, progress, hfollows, hcontracts, rfl, hcause⟩ :=
      follows_of_reduceNext_error hveto hlimit hrun fun hfault => hdepth stop (hfault ▸ hrun)
    rcases hcause with ⟨rfl, -⟩ | ⟨hlt, hwatch'⟩
    · exact absurd (hfollows.accepts c (by simp [hrow])) hrefused
    · obtain ⟨back', hrow'⟩ := Term.contracta_eq_append_cons hfollows.steps hcontracts hlt
      obtain ⟨rfl, rfl⟩ := eq_of_append_cons_eq (hrow.symm.trans hrow') haccepts hfollows.accepts
        hrefused (not_accepts_of_error hwatch')
      cases hwatch.symm.trans hwatch'
      rw [hfollows.stop_eq, Term.length_contracta hfollows.steps]

theorem reduceNext_of_endless
    (hendless : ∀ count ≤ limit.toNat, ∀ r, Term.steps count t = some r → r.step ≠ none)
    (haccepts : ∀ c ∈ Term.contracta limit.toNat t, reducer.watch.Accepts c) :
    reducer.reduceNext t before = .error (.nonTermination limit)
      ⟨limit.toNat + 1,
        (reducer.watch.noted (Term.contracta limit.toNat t)).reverse ++ before.notes⟩ := by
  cases hrun : reducer.reduceNext t before with
  | ok r stop =>
    obtain ⟨count, hle, hsteps, hnormal, -⟩ := steps_of_reduceNext hveto hlimit hrun
    exact absurd hnormal (hendless count hle r hsteps)
  | error fault stop =>
    obtain ⟨count, u, c, v, progress, hfollows, hcontracts, rfl, hcause⟩ :=
      follows_of_reduceNext_error hveto hlimit hrun fun hfault => hdepth stop (hfault ▸ hrun)
    rcases hcause with ⟨rfl, rfl⟩ | ⟨hlt, hwatch⟩
    · rw [hfollows.stop_eq]
    · obtain ⟨back, hrow⟩ := Term.contracta_eq_append_cons hfollows.steps hcontracts hlt
      exact absurd (haccepts c (by simp [hrow])) (not_accepts_of_error hwatch)

end Endings

theorem reduceNext_of_unlimited (hveto : reducer.veto = none) {t r : Term} {before stop : Progress β}
    (h : reducer.reduceNext t before = .ok r stop) {limit : Int} (hle : stop.steps ≤ limit) :
    { reducer with limit := some limit }.reduceNext t before = .ok r stop := by
  have hwatch : { reducer with limit := some limit }.watch = reducer.watch := rfl
  apply reduceWithin_eq_ok_of_allowed hwatch h
  · change Term.maxDepth + stop.steps < Term.maxDepth + limit.toNat + 2 + 0
    omega
  · intro steps hsteps
    have hveto' : { reducer with limit := some limit }.veto = none := hveto
    rw [objection?_eq_none_iff hveto' rfl]
    omega

theorem reduceNext_of_neg (hveto : reducer.veto = none) {limit : Int}
    (hlimit : reducer.limit = some limit) (hneg : limit < 0) (param : String) (body : Term)
    (index : Nat) (before : Progress β) :
    reducer.reduceNext (.app (.lam param body) (.var index)) before
      = .error (.nonTermination limit) ⟨1, before.notes⟩ := by
  have hobjection : reducer.objection? 1 = some (.nonTermination limit) :=
    (objection?_eq_some_iff hveto hlimit).mpr ⟨by omega, rfl⟩
  have hcontract : reducer.contract (.var index) body ⟨0, before.notes⟩
      = .error (.nonTermination limit) ⟨1, before.notes⟩ := by
    refine (bind_eq_of_eq_ok _ rfl).trans ((bind_eq_of_eq_ok _ rfl).trans ?_)
    simp only [hobjection]
    rfl
  have hfuel : reducer.fuel = Term.maxDepth + limit.toNat + 1 + 1 := by rw [fuel, hlimit]
  refine (bind_eq_of_eq_ok _ rfl).trans ?_
  rw [hfuel, Term.maxDepth, reduceWithin, reduceWithin, reduceWithin]
  refine (bind_eq_of_eq_ok _ rfl).trans ((bind_eq_of_eq_ok _ rfl).trans ?_)
  exact bind_eq_of_eq_error _ hcontract

/-- **Evaluation takes call-by-value steps, up to an exact limit.** A contraction is the three-step
substitution. Whatever was evaluated before, an evaluation with a limit that stays within the depth
allowed gives the term at the end of the row of steps if the row is no longer than the limit, and
blames the limit at the first contraction beyond it, unless the watcher fails at one of the contracta
up to there: then it ends at that one. A limit that takes more digits than are ever written cannot be
blamed, and the run ends in that defect. All contracta up to the end are shown to the watcher, in
order. Without a limit, a result is the one that every limit no smaller than its count gives. -/
theorem reduceNext_exact (reducer : Reducer β) (hveto : reducer.veto = none) (t : Term)
    (before : Progress β) :
    (∀ value body, Term.contract value body = .ok (Term.instantiate value body 0)) ∧
    (∀ limit, reducer.limit = some limit →
      (∀ stop, reducer.reduceNext t before ≠ .error .depthExceeded stop) →
      (∀ r stop, reducer.reduceNext t before = .ok r stop ↔
        ∃ count ≤ limit.toNat, Term.steps count t = some r ∧ r.step = none ∧
          (∀ c ∈ Term.contracta limit.toNat t, reducer.watch.Accepts c) ∧
          stop = ⟨count,
            (reducer.watch.noted (Term.contracta limit.toNat t)).reverse ++ before.notes⟩) ∧
      (∀ front c back fault, Term.contracta limit.toNat t = front ++ c :: back →
        (∀ u ∈ front, reducer.watch.Accepts u) → reducer.watch c = .error fault →
        reducer.reduceNext t before = .error fault
          ⟨front.length + 1, (reducer.watch.noted front).reverse ++ before.notes⟩) ∧
      ((∀ count ≤ limit.toNat, ∀ r, Term.steps count t = some r → r.step ≠ none) →
        (∀ c ∈ Term.contracta limit.toNat t, reducer.watch.Accepts c) →
        reducer.reduceNext t before = .error (.nonTermination limit)
          ⟨limit.toNat + 1,
            (reducer.watch.noted (Term.contracta limit.toNat t)).reverse ++ before.notes⟩) ∧
      (Text.Writable limit →
        Fault.nonTermination limit = .diagnostic (.nonTermination (toString limit))) ∧
      (¬ Text.Writable limit → Fault.nonTermination limit = .defect .tooManyDigits)) ∧
    (reducer.limit = none → ∀ r stop, reducer.reduceNext t before = .ok r stop →
      ∀ limit : Int, stop.steps ≤ limit →
        { reducer with limit := some limit }.reduceNext t before = .ok r stop) := by
  refine ⟨Term.contract_eq, ?_, ?_⟩
  · intro limit hlimit hdepth
    refine ⟨fun r stop => ⟨steps_of_reduceNext hveto hlimit, ?_⟩, ?_, ?_, Fault.nonTermination_eq,
      Fault.nonTermination_eq_defect⟩
    · rintro ⟨count, hle, hsteps, hnormal, haccepts, rfl⟩
      exact reduceNext_of_steps hveto hlimit hdepth hle hsteps hnormal haccepts
    · intro front c back fault hrow haccepts hwatch
      exact reduceNext_of_refused hveto hlimit hdepth hrow haccepts hwatch
    · intro hendless haccepts
      exact reduceNext_of_endless hveto hlimit hdepth hendless haccepts
  · intro _ r stop h limit hle
    exact reduceNext_of_unlimited hveto h hle

/-- A term with a free variable that takes two steps: a limit of one is blamed, after the first
contractum was shown, and a run without a limit gives what a limit of two gives. -/
theorem reduceNext_exact_open :
    (⟨some 1, none, .terms⟩ : Reducer Term).reduceNext
        (.app (.lam "x" (.app (.var 0) (.var 0))) (.app (.lam "y" (.var 0)) (.var 3))) ⟨9, [.var 5]⟩
      = .error (.diagnostic (.nonTermination "1")) ⟨2, [.var 3, .var 5]⟩ ∧
    (⟨some 2, none, .terms⟩ : Reducer Term).reduceNext
        (.app (.lam "x" (.app (.var 0) (.var 0))) (.app (.lam "y" (.var 0)) (.var 3))) ⟨9, [.var 5]⟩
      = .ok (.app (.var 3) (.var 3)) ⟨2, [.app (.var 3) (.var 3), .var 3, .var 5]⟩ := by
  constructor
  · refine ((reduceNext_exact ⟨some 1, none, .terms⟩ rfl _ ⟨9, [.var 5]⟩).2.1 1 rfl ?_).2.2.1 ?_ ?_
    · intro stop h
      cases h
    · intro count hle r hsteps
      match count, hle, hsteps with
      | 0, _, hsteps | 1, _, hsteps =>
        cases hsteps
        decide
    · exact fun c _ => ⟨some c, rfl⟩
  · exact (reduceNext_exact ⟨none, none, .terms⟩ rfl _ ⟨9, [.var 5]⟩).2.2 rfl _ _ rfl 2 (by decide)

/-- A binder without a name cannot be renamed, so a contractum that has one may have no text. A run
that is traced by its texts ends there, though the row of steps ends within the limit. And a negative
limit of too many digits ends a run at its first contraction, but is not blamed. -/
theorem reduceNext_unwritable :
    Term.steps 2 (.app (.app (.lam "x" (.var 0)) (.lam "" (.lam "" (.var 1)))) (.lam "z" (.var 0)))
      = some (.lam "" (.lam "z" (.var 0))) ∧
    (Term.lam "" (.lam "z" (.var 0))).step = none ∧
    (tracing (some 5) none true).reduceNext
        (.app (.app (.lam "x" (.var 0)) (.lam "" (.lam "" (.var 1)))) (.lam "z" (.var 0))) ⟨0, []⟩
      = .error (.defect .emptyBinder) ⟨1, []⟩ ∧
    (⟨some (-10 ^ 4300), none, .terms⟩ : Reducer Term).reduceNext
        (.app (.lam "x" (.var 0)) (.var 0)) ⟨0, []⟩
      = .error (.defect .tooManyDigits) ⟨1, []⟩ := by
  refine ⟨by decide, by decide, rfl, ?_⟩
  have hlong : ¬ Text.Writable (-10 ^ 4300) := Text.not_writable_neg_pow (Nat.le_refl _)
  rw [← Fault.nonTermination_eq_defect hlong]
  have hneg : (-10 ^ 4300 : Int) < 0 := Int.neg_neg_of_pos (Int.pow_pos (by decide))
  exact reduceNext_of_neg rfl rfl hneg "x" (.var 0) 0 ⟨0, []⟩

end Reducer

end CallByValue
