import CallByValue.Proofs.Session.Interactive
/-!
# Failed lines leave no trace

Lines are added one after another, each under a guard. What a line comes to depends on nothing that
a failed line changes: the reporter has printed more and has forgotten which line it was at, and
that is all. So the lines that fail could as well have been left out. Two sessions that are `Alike`
give the same answers, and the run of all lines stays alike to the run of those that succeed. The
sessions are legible and the numbers of the lines can be written, so that every report can be.
-/

namespace CallByValue

namespace Session

/-- The sessions differ at most in what was printed, and in the files and lines that are
registered. -/
structure Alike (session other : Session) : Prop where
  limit : session.limit = other.limit
  veto : session.veto = other.veto
  trace : session.reporter.trace = other.reporter.trace
  definitions : session.definitions = other.definitions
  results : session.results = other.results

namespace Alike

variable {session other : Session}

theorem refl (session : Session) : session.Alike session :=
  ⟨rfl, rfl, rfl, rfl, rfl⟩

theorem answer (h : session.Alike other) (expr : String) :
    session.answer expr = other.answer expr := by
  rw [Session.answer, Session.answer, evaluate, evaluate, h.limit, h.veto, h.trace, h.definitions]

theorem recovered (h : session.Alike other) (output : String) :
    (session.recovered output).Alike other :=
  ⟨h.limit, h.veto, h.trace, h.definitions, h.results⟩

theorem keeping (h : session.Alike other) (query : Query) (text output output' : String) :
    (session.keeping query text output).Alike (other.keeping query text output') :=
  ⟨h.limit, h.veto, h.trace, congrArg query.storedIn h.definitions,
    congrArg (Array.push · text) h.results⟩

end Alike

def addEntry (entry : Script.Entry) : Action Query :=
  add entry.text entry.number

def answered (entries : List Script.Entry) (outcomes : List (Option Query)) : List Script.Entry :=
  ((entries.zip outcomes).filter fun line => line.2.isSome).map Prod.fst

/-- A run of guarded lines comes to its end. It stays alike to the run of the lines that were
answered, which gives the same queries. -/
theorem Orderly.exists_mapM_guarded {session other : Session} (h : session.Orderly)
    (hlegible : session.Legible) (hother : other.Legible) (halike : session.Alike other)
    {entries : List Script.Entry} (hnumbers : ∀ entry ∈ entries, Text.Writable entry.number) :
    ∃ outcomes last last',
      entries.mapM (fun entry => guarded (addEntry entry)) session = .ok outcomes last ∧
      (answered entries outcomes).mapM addEntry other = .ok (outcomes.filterMap id) last' ∧
      last.Orderly ∧ last.Legible ∧ last.Alike last' := by
  induction entries generalizing session other with
  | nil => exact ⟨[], session, other, rfl, rfl, h, hlegible, halike⟩
  | cons entry entries ih =>
    obtain ⟨hnumber, hnumbers⟩ := List.forall_mem_cons.mp hnumbers
    cases hanswer : session.answer entry.text with
    | error fault =>
      obtain ⟨output, hfirst⟩ := h.exists_guarded_of_error hlegible hnumber hanswer
      obtain ⟨outcomes, last, last', hrun, hrun', hlast⟩ := ih (h.recovered output)
        (hlegible.recovered output) hother (halike.recovered output) hnumbers
      refine ⟨none :: outcomes, last, last', ?_, hrun', hlast⟩
      exact mapM_cons_of_eq_ok hfirst hrun
    | ok answer =>
      obtain ⟨query, text⟩ := answer
      obtain ⟨output, hfirst⟩ := h.exists_add_of_ok hlegible hnumber hanswer
      have hanswer' := halike.answer entry.text ▸ hanswer
      have hfirst' := add_eq hanswer' (namedIn_of_gives (h.gives_of_answer hanswer)) fun _ =>
        (hother.working entry.text hnumber).lines
      obtain ⟨outcomes, last, last', hrun, hrun', hlast⟩ := ih (h.keeping hanswer output)
        (hlegible.keeping query text output) (hother.keeping query text _)
        (halike.keeping query text output _) hnumbers
      refine ⟨some query :: outcomes, last, last', ?_, ?_, hlast⟩
      · exact mapM_cons_of_eq_ok (guarded_of_ok hfirst) hrun
      · exact mapM_cons_of_eq_ok hfirst' hrun'

/-- **Failed lines leave no trace.** Lines are added one after another on the command line, each
under a guard. The limit and the numbers of the lines can be written. None of the lines ends the run.
If the next line fails, then the guard leaves the definitions and the results as they were, errors
are fatal no more than before, and every file stays registered but no line of it. And leaving out all
lines that failed gives the same queries, the same definitions and the same results. -/
theorem failed_lines_leave_no_trace {session : Session} (h : Interactive session)
    (hlegible : session.Legible) {entries : List Script.Entry}
    (hnumbers : ∀ entry ∈ entries, Text.Writable entry.number) :
    ∃ outcomes last,
      entries.mapM (fun entry => guarded (addEntry entry)) session = .ok outcomes last ∧
      (∀ entry fault failed, Text.Writable entry.number →
        addEntry entry last = .error fault failed →
        ∃ next, guarded (addEntry entry) last = .ok none next ∧
          next.definitions = last.definitions ∧ next.results = last.results ∧
          next.reporter.fatal = last.reporter.fatal ∧
          next.reporter.origins.names = last.reporter.origins.names ∧
          ∀ origin ∈ next.reporter.origins.entries, origin.2 = .unset) ∧
      ∃ last', (answered entries outcomes).mapM addEntry session
          = .ok (outcomes.filterMap id) last' ∧
        last'.definitions = last.definitions ∧ last'.results = last.results := by
  obtain ⟨outcomes, last, last', hrun, hrun', hlast, hlastLegible, halike⟩ :=
    h.orderly.exists_mapM_guarded hlegible hlegible (.refl session) hnumbers
  refine ⟨outcomes, last, hrun, ?_, last', hrun', halike.definitions.symm, halike.results.symm⟩
  intro entry fault failed hnumber hfails
  cases hanswer : last.answer entry.text with
  | error fault' =>
    obtain ⟨output, hguarded⟩ := hlast.exists_guarded_of_error hlastLegible hnumber hanswer
    refine ⟨last.recovered output, hguarded, rfl, rfl, rfl, NameMap.names_fill _ _, ?_⟩
    intro origin horigin
    obtain ⟨known, -, rfl⟩ := List.mem_map.mp horigin
    rfl
  | ok answer =>
    obtain ⟨output, hadd⟩ := hlast.exists_add_of_ok hlastLegible hnumber hanswer
    cases hadd.symm.trans hfails

/-- A definition, a line that cannot be read, one without a value, and one that uses the
definition. -/
theorem failed_lines_leave_no_trace_mixed :
    ∃ last last',
      [Script.Entry.mk "f = \\x. x" 1, ⟨"f g", 2⟩, ⟨"(\\x. x x) (\\x. x x)", 3⟩,
          ⟨"f = f f", 4⟩].mapM (fun entry => guarded (addEntry entry))
          (new (.new .terminal true) Session.typedIn true (some 9))
        = .ok [some (.definition "f" (.lam "x" (.var 0))), none, none,
            some (.definition "f" (.lam "x" (.var 0)))] last ∧
      [Script.Entry.mk "f = \\x. x" 1, ⟨"f = f f", 4⟩].mapM addEntry
          (new (.new .terminal true) Session.typedIn true (some 9))
        = .ok [.definition "f" (.lam "x" (.var 0)), .definition "f" (.lam "x" (.var 0))] last' ∧
      last'.definitions = last.definitions ∧ last'.results = last.results := by
  have hlegible : (new (.new .terminal true) Session.typedIn true (some 9)).Legible :=
    new_legible .terminal true Session.typedIn true (Text.writable_of_mem_some (by decide))
  have hnumbers : ∀ entry ∈ [Script.Entry.mk "f = \\x. x" 1, ⟨"f g", 2⟩,
      ⟨"(\\x. x x) (\\x. x x)", 3⟩, ⟨"f = f f", 4⟩], Text.Writable entry.number := by
    intro entry hentry
    apply Text.writable_of_lt_ten
    revert entry
    decide
  obtain ⟨outcomes, last, hrun, -, last', hrun', hsame⟩ :=
    failed_lines_leave_no_trace (.typedIn (.new .terminal true) (some 9)) hlegible hnumbers
  have houtcomes : (match [Script.Entry.mk "f = \\x. x" 1, ⟨"f g", 2⟩,
        ⟨"(\\x. x x) (\\x. x x)", 3⟩, ⟨"f = f f", 4⟩].mapM
        (fun entry => guarded (addEntry entry))
        (new (.new .terminal true) Session.typedIn true (some 9)) with
      | .ok outcomes _ => outcomes
      | .error _ _ => [])
      = [some (.definition "f" (.lam "x" (.var 0))), none, none,
          some (.definition "f" (.lam "x" (.var 0)))] := by
    decide +kernel
  rw [hrun] at houtcomes
  dsimp only at houtcomes
  subst houtcomes
  exact ⟨last, last', hrun, hrun', hsame⟩

end Session

end CallByValue
