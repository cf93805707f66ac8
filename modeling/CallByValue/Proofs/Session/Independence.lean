import CallByValue.Proofs.Parser.Locality
import CallByValue.Proofs.Session.Interactive
/-!
# Independent lines commute

A line reads the definitions of the names that stand in it, and writes at most one definition, that
of the name in front of its equals sign. Two lines are independent if neither mentions what the
other defines. Then neither reads what the other writes, and they write in different places, so it
does not matter which of them comes first: each comes to the same thing, warns or does not warn, and
the same names are defined as the same terms in the end. The numbers of the lines may differ between
the orders, as long as all of them can be written.
-/

namespace CallByValue

/-- Neither line mentions the name that the other defines. -/
structure Independent (expr other : String) : Prop where
  left : ∀ name ∈ definedIn? expr, name ∉ namesIn other
  right : ∀ name ∈ definedIn? other, name ∉ namesIn expr

instance (expr other : String) : Decidable (Independent expr other) :=
  decidable_of_iff ((∀ name ∈ definedIn? expr, name ∉ namesIn other) ∧
    ∀ name ∈ definedIn? other, name ∉ namesIn expr) ⟨fun h => ⟨h.1, h.2⟩, fun h => ⟨h.1, h.2⟩⟩

theorem Independent.symm {expr other : String} (h : Independent expr other) :
    Independent other expr :=
  ⟨h.right, h.left⟩

/-- A line that is evaluated was read, and only the term of the query is another. -/
theorem Reducer.exists_of_run_eq_ok {β : Type} {reducer : Reducer β} {definitions : Definitions}
    {expr : String} {query : Query} (h : (reducer.run definitions expr).result = .ok query) :
    ∃ read value, parseBounded definitions expr = .ok read ∧ query = read.withBody value := by
  rw [run] at h
  cases hread : parseBounded definitions expr with
  | error fault => simp only [hread, reduceCtorEq] at h
  | ok read =>
    simp only [hread, evaluate] at h
    cases hvalue : (reducer.reduce read.body).result with
    | error fault => simp only [hvalue, Except.map, reduceCtorEq] at h
    | ok value =>
      simp only [hvalue, Except.map, Except.ok.injEq] at h
      exact ⟨read, value, rfl, h.symm⟩

namespace Session

variable {session next : Session} {expr other text : String} {query : Query}

/-! ### What a line reads -/

theorem answer_congr (hlimit : next.limit = session.limit) (hveto : next.veto = session.veto)
    (htrace : next.reporter.trace = session.reporter.trace)
    (hfind : ∀ name ∈ namesIn expr, next.definitions.find? name = session.definitions.find? name) :
    next.answer expr = session.answer expr := by
  have hparse := parseBounded_congr hfind
  rw [answer, answer, evaluate, evaluate, hlimit, hveto, htrace, Reducer.run, Reducer.run, hparse]

theorem definedIn?_of_answer {name : String} {body : Term}
    (h : session.answer expr = .ok (.definition name body, text)) :
    definedIn? expr = some name := by
  obtain ⟨read, value, hread, hquery⟩ := Reducer.exists_of_run_eq_ok (answer_eq_ok_iff.mp h).1
  cases read with
  | term t => cases hquery
  | definition name' t =>
    cases hquery
    exact definedIn?_of_parseBounded hread

/-! ### What a line writes -/

/-- The definitions once a line is added, whether it is answered or fails. -/
def definitionsAfter (session : Session) (expr : String) : Definitions :=
  match session.answer expr with
  | .ok (query, _) => query.storedIn session.definitions
  | .error _ => session.definitions

theorem find?_definitionsAfter {name : String} (h : name ∉ definedIn? expr) :
    (session.definitionsAfter expr).find? name = session.definitions.find? name := by
  rw [definitionsAfter]
  split
  · next query text hanswer =>
    cases query with
    | term t => rfl
    | definition defined body =>
      have hne : name ≠ defined := by
        intro heq
        subst heq
        exact h (definedIn?_of_answer hanswer)
      rw [Query.storedIn, NameMap.find?_insert, if_neg hne]
  · rfl

/-- A line was added to the first session, and the second came of it. -/
structure Added (session : Session) (expr : String) (next : Session) : Prop where
  orderly : next.Orderly
  legible : next.Legible
  limit : next.limit = session.limit
  veto : next.veto = session.veto
  trace : next.reporter.trace = session.reporter.trace
  definitions : next.definitions = session.definitionsAfter expr

section Legible

variable {number : Int} (h : session.Orderly) (hlegible : session.Legible)
  (hnumber : Text.Writable number)

include h hlegible hnumber

theorem Orderly.outcome_eq (expr : String) :
    session.outcome expr number = (session.answer expr).map Prod.fst := by
  rw [outcome]
  cases hanswer : session.answer expr with
  | error fault =>
    rw [add_of_answer_eq_error hanswer number]
    rfl
  | ok answer =>
    obtain ⟨output, hadd⟩ := h.exists_add_of_ok hlegible hnumber hanswer
    rw [hadd]
    rfl

theorem Orderly.definedIn?_of_outcome {name : String} {body : Term}
    (houtcome : session.outcome expr number = .ok (.definition name body)) :
    definedIn? expr = some name := by
  rw [h.outcome_eq hlegible hnumber] at houtcome
  cases hanswer : session.answer expr with
  | error fault =>
    rw [hanswer] at houtcome
    cases houtcome
  | ok answer =>
    obtain ⟨query, text⟩ := answer
    rw [hanswer] at houtcome
    cases houtcome
    exact definedIn?_of_answer hanswer

theorem Orderly.exists_guarded (expr : String) :
    ∃ next, guarded (add expr number) session
        = .ok (session.outcome expr number).toOption next ∧ Added session expr next := by
  have houtcome := h.outcome_eq hlegible hnumber expr
  cases hanswer : session.answer expr with
  | error fault =>
    obtain ⟨output, hguarded⟩ := h.exists_guarded_of_error hlegible hnumber hanswer
    refine ⟨session.recovered output, ?_, h.recovered output, hlegible.recovered output, rfl, rfl,
      rfl, ?_⟩
    · rw [hguarded, houtcome, hanswer]
      rfl
    · rw [definitionsAfter, hanswer]
      rfl
  | ok answer =>
    obtain ⟨query, text⟩ := answer
    obtain ⟨output, hadd⟩ := h.exists_add_of_ok hlegible hnumber hanswer
    refine ⟨session.keeping query text output, ?_, h.keeping hanswer output,
      hlegible.keeping query text output, rfl, rfl, rfl, ?_⟩
    · rw [guarded_of_ok hadd, houtcome, hanswer]
      rfl
    · rw [definitionsAfter, hanswer]
      rfl

end Legible

/-! ### Warnings -/

/-- Adding the line prints the warning that it redefines a name, after the steps of its
evaluation. -/
def Warns (session : Session) (expr : String) (number : Int) : Prop :=
  ∃ name body last, add expr number session = .ok (.definition name body) last ∧
    last.reporter.output = (session.working expr number).reporter.output ++
      (session.working expr number).reporter.warningText
        (.overwrites expr name (nameStart expr name))

theorem Orderly.warns_iff (h : session.Orderly) (hlegible : session.Legible) (expr : String)
    {number : Int} (hnumber : Text.Writable number) :
    session.Warns expr number ↔
      ∃ query, session.outcome expr number = .ok query ∧
        query.overwrites session.definitions = true := by
  rw [h.outcome_eq hlegible hnumber]
  cases hanswer : session.answer expr with
  | error fault => simp [Warns, add_of_answer_eq_error hanswer, Except.map]
  | ok answer =>
    obtain ⟨query, text⟩ := answer
    have hadd := add_eq hanswer (namedIn_of_gives (h.gives_of_answer hanswer)) fun _ =>
      (hlegible.working expr hnumber).lines
    constructor
    · intro hwarns
      obtain ⟨name, body, last, hlast, houtput⟩ := hwarns
      cases hadd.symm.trans hlast
      refine ⟨_, rfl, ?_⟩
      by_contra hnew
      have hquiet : (session.working expr number).storingText expr (.definition name body) = "" :=
        storingText_eq_empty (Bool.eq_false_iff.mpr hnew)
      have hsilent : session.addingOutput expr number (.definition name body)
          = (session.working expr number).reporter.output ++ "" := by
        rw [addingOutput, hquiet]
      have hprinted := hsilent.symm.trans houtput
      exact Reporter.warningText_ne_empty _ _ ((String.append_right_inj _).mp hprinted).symm
    · intro hoverwrites
      obtain ⟨_, ⟨⟩, hoverwrites⟩ := hoverwrites
      cases query with
      | term t => cases hoverwrites
      | definition name body =>
        have hknown : (session.working expr number).definitions.contains name = true := hoverwrites
        refine ⟨name, body, _, hadd, ?_⟩
        rw [Session.keeping, addingOutput, storingText, if_pos hknown]

/-! ### Two lines -/

theorem Added.find? (h : Added session other next) {name : String}
    (hname : name ∉ definedIn? other) :
    next.definitions.find? name = session.definitions.find? name := by
  rw [h.definitions]
  exact find?_definitionsAfter hname

theorem Added.answer_eq (h : Added session other next) (hind : Independent expr other) :
    next.answer expr = session.answer expr := by
  apply answer_congr h.limit h.veto h.trace
  intro name hname
  exact h.find? fun hdefined => hind.right name hdefined hname

section Numbers

variable (horderly : session.Orderly) (hlegible : session.Legible) {n m : Int}
  (hn : Text.Writable n) (hm : Text.Writable m)

include horderly hlegible hn hm

theorem Added.outcome_eq (h : Added session other next) (hind : Independent expr other) :
    next.outcome expr n = session.outcome expr m := by
  rw [h.orderly.outcome_eq h.legible hn, horderly.outcome_eq hlegible hm, h.answer_eq hind]

theorem Added.warns_iff (h : Added session other next) (hind : Independent expr other) :
    next.Warns expr n ↔ session.Warns expr m := by
  rw [h.orderly.warns_iff h.legible expr hn, horderly.warns_iff hlegible expr hm,
    h.outcome_eq horderly hlegible hn hm hind]
  apply exists_congr
  intro query
  apply and_congr_right
  intro houtcome
  cases query with
  | term t => rfl
  | definition name body =>
    have hname := mem_namesIn_of_definedIn?
      (horderly.definedIn?_of_outcome hlegible hm houtcome)
    have hfind := h.find? fun hdefined => hind.right name hdefined hname
    rw [Query.overwrites, Query.overwrites, NameMap.contains, NameMap.contains, hfind]

end Numbers

/-- A name that is not the one that the line defines is as it was, and otherwise it is as the line
says, whatever was defined before. -/
theorem find?_definitionsAfter_congr (hanswer : next.answer expr = session.answer expr)
    {name : String}
    (hfind : next.definitions.find? name = session.definitions.find? name) :
    (next.definitionsAfter expr).find? name = (session.definitionsAfter expr).find? name := by
  rw [definitionsAfter, definitionsAfter, hanswer]
  split
  · next query text _ =>
    cases query with
    | term t => exact hfind
    | definition defined body =>
      rw [Query.storedIn, Query.storedIn, NameMap.find?_insert, NameMap.find?_insert, hfind]
  · exact hfind

theorem Added.find?_comm {first last first' last' : Session} (hind : Independent expr other)
    (hfirst : Added session expr first) (hlast : Added first other last)
    (hfirst' : Added session other first') (hlast' : Added first' expr last') (name : String) :
    last.definitions.find? name = last'.definitions.find? name := by
  have hother := hfirst.answer_eq hind.symm
  have hexpr := hfirst'.answer_eq hind
  by_cases hname : name ∈ definedIn? expr
  · -- the other line does not define the name, and finds it as the first line does
    have hnot : name ∉ definedIn? other := by
      intro hdefined
      exact hind.left name hname (mem_namesIn_of_definedIn? hdefined)
    rw [hlast.find? hnot, hfirst.definitions, hlast'.definitions]
    exact (find?_definitionsAfter_congr hexpr (hfirst'.find? hnot)).symm
  · rw [hlast'.find? hname, hlast.definitions, hfirst'.definitions]
    exact find?_definitionsAfter_congr hother (hfirst.find? hname)

/-- **Independent lines commute.** Two lines of which neither mentions the name that the other
defines are added on the command line, each under a guard, in either order and under any line numbers
that can be written, as the limit can. No order ends the run. Each line comes to the same query or to
the same fault in both orders, and prints the warning that it redefines a name in both or in none.
And in the end every name is defined as the same term. -/
theorem independent_lines_commute {session : Session} (h : Interactive session)
    (hlegible : session.Legible) {expr other : String} (hind : Independent expr other)
    {n₁ n₂ m₁ m₂ : Int} (hn₁ : Text.Writable n₁) (hn₂ : Text.Writable n₂) (hm₁ : Text.Writable m₁)
    (hm₂ : Text.Writable m₂) :
    ∃ first last first' last',
      guarded (add expr n₁) session = .ok (session.outcome expr n₁).toOption first ∧
      guarded (add other n₂) first = .ok (first.outcome other n₂).toOption last ∧
      guarded (add other m₁) session = .ok (session.outcome other m₁).toOption first' ∧
      guarded (add expr m₂) first' = .ok (first'.outcome expr m₂).toOption last' ∧
      first'.outcome expr m₂ = session.outcome expr n₁ ∧
      first.outcome other n₂ = session.outcome other m₁ ∧
      (first'.Warns expr m₂ ↔ session.Warns expr n₁) ∧
      (first.Warns other n₂ ↔ session.Warns other m₁) ∧
      ∀ name, last.definitions.find? name = last'.definitions.find? name := by
  have horderly := h.orderly
  obtain ⟨first, hrun, hfirst⟩ := horderly.exists_guarded hlegible hn₁ expr
  obtain ⟨last, hrun₁, hlast⟩ := hfirst.orderly.exists_guarded hfirst.legible hn₂ other
  obtain ⟨first', hrun', hfirst'⟩ := horderly.exists_guarded hlegible hm₁ other
  obtain ⟨last', hrun₁', hlast'⟩ := hfirst'.orderly.exists_guarded hfirst'.legible hm₂ expr
  refine ⟨first, last, first', last', hrun, hrun₁, hrun', hrun₁', ?_, ?_, ?_, ?_, ?_⟩
  · exact hfirst'.outcome_eq horderly hlegible hm₂ hn₁ hind
  · exact hfirst.outcome_eq horderly hlegible hn₂ hm₁ hind.symm
  · exact hfirst'.warns_iff horderly hlegible hm₂ hn₁ hind
  · exact hfirst.warns_iff horderly hlegible hn₂ hm₁ hind.symm
  · exact Added.find?_comm hind hfirst hlast hfirst' hlast'

/-- One line redefines a name, and the other mentions a name that nobody defines. -/
theorem independent_lines_commute_redefined :
    Independent "f = f f" "g = \\x. h x" ∧
    ∃ session first last first' last', Interactive session ∧ session.Legible ∧
      guarded (add "f = f f" 2) session
        = .ok (some (.definition "f" (.lam "x" (.var 0)))) first ∧
      guarded (add "g = \\x. h x" 3) first = .ok none last ∧
      guarded (add "g = \\x. h x" 2) session = .ok none first' ∧
      guarded (add "f = f f" 3) first'
        = .ok (some (.definition "f" (.lam "x" (.var 0)))) last' ∧
      first.outcome "g = \\x. h x" 3 = .error (.diagnostic (.unbound "g = \\x. h x" "h" 8)) ∧
      first'.Warns "f = f f" 3 ∧
      last.definitions.find? "f" = last'.definitions.find? "f" := by
  let session :=
    after (add "f = \\x. x" 1) (new (.new .terminal true) Session.typedIn true (some 9))
  have hsession : Interactive session :=
    .add (.typedIn (.new .terminal true) (some 9)) "f = \\x. x" 1
  have hlegible : session.Legible := by
    constructor
    · have hlimit : session.limit = some 9 := by decide +kernel
      rw [hlimit]
      exact Text.writable_of_mem_some (by decide)
    · have hlines : session.reporter.activeLines = [] := by decide +kernel
      intro line hline
      rw [hlines] at hline
      cases hline
  have hind : Independent "f = f f" "g = \\x. h x" := by decide +kernel
  have htwo : Text.Writable 2 := Text.writable_of_lt_ten (by decide)
  have hthree : Text.Writable 3 := Text.writable_of_lt_ten (by decide)
  obtain ⟨first, last, first', last', hrun, hrun₁, hrun', hrun₁', hexpr, hother, hwarns, -, hfind⟩ :=
    independent_lines_commute hsession hlegible hind htwo hthree htwo hthree
  have hquery : session.outcome "f = f f" 2 = .ok (.definition "f" (.lam "x" (.var 0))) := by
    decide +kernel
  have hfault : session.outcome "g = \\x. h x" 2
      = .error (.diagnostic (.unbound "g = \\x. h x" "h" 8)) := by
    decide +kernel
  rw [hother, hfault] at hrun₁
  rw [hexpr, hquery] at hrun₁'
  rw [hquery] at hrun
  rw [hfault] at hrun'
  refine ⟨hind, session, first, last, first', last', hsession, hlegible, hrun, hrun₁, hrun', hrun₁',
    hother.trans hfault, ?_, hfind "f"⟩
  rw [hwarns, hsession.orderly.warns_iff hlegible _ htwo]
  exact ⟨_, hquery, by decide +kernel⟩

end Session

end CallByValue
