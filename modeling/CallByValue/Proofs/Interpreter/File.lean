import CallByValue.Interpreter
import CallByValue.Proofs.CommandLine
import CallByValue.Proofs.Script.Course
import CallByValue.Proofs.Script.Grouping
import CallByValue.Proofs.Session.Invariant
/-!
# Working through a file

Run on a file, the program shows the course of its expressions. It keeps the file and the line that
it is at in its reporter, which it sets and clears at every expression. Between two expressions no
line is registered, so that a warning or a report names the one that is being worked on; this is the
invariant of the run over a file. Of what is printed nothing is taken back, so the run prints what
the first expression prints and then what the others do, and stops where the course stops.

A warning and a report say the number of the line, which can be written as long as the number of
lines in the file can be. The limit can be, since it comes from the command line.
-/

namespace CallByValue

/-- What the program shows of a course: everything is printed, and a failure is an exit. -/
def Script.Course.transcript (style : Text.Style) (path : String) (course : Course) : Transcript :=
  ⟨course.printed style path, "", course.failed.map fun _ => .exit 1⟩

namespace Session

open Script

/-- A session between two expressions of a file: it is sound, its errors are fatal, nothing is
traced, and of the files and lines it has registered its own file and no line. -/
structure OnFile (style : Text.Style) (path : String) (limit : Option Int) (session : Session) : Prop
    extends Sound session where
  style_eq : session.reporter.style = style
  path_eq : session.path = path
  limit_eq : session.limit = limit
  fatal : session.reporter.fatal = true
  trace : session.reporter.trace = false
  origins : session.reporter.origins = ⟨[(path, .unset)]⟩

theorem new_onFile (style : Text.Style) (path : String) (limit : Option Int) :
    OnFile style path limit (new (.new style false) path false limit) :=
  ⟨new_sound (.new style false) path false limit, rfl, rfl, rfl, rfl, rfl, rfl⟩

variable {style : Text.Style} {path : String} {limit : Option Int} {session : Session} {entry : Entry}
  {entries : List Entry} {query : Query} {text : String} {fault : Fault}

def onLine (reporter : Reporter) (path : String) (entry : Entry) : Reporter :=
  { reporter with origins := ⟨[(path, ⟨some entry.text, some entry.number⟩)]⟩ }

theorem activeLines_onLine (reporter : Reporter) (path : String) (hne : entry.text ≠ "") :
    (onLine reporter path entry).activeLines = [⟨path, entry.text, some entry.number⟩] := by
  simp [Reporter.activeLines, onLine, hne]

theorem numbered_onLine (reporter : Reporter) (path : String) (hne : entry.text ≠ "")
    (hnumber : Text.Writable entry.number) : (onLine reporter path entry).Numbered := by
  intro line hline
  rw [activeLines_onLine reporter path hne, List.mem_singleton] at hline
  subst hline
  rintro n ⟨⟩
  exact hnumber

namespace OnFile

theorem answer_eq (h : OnFile style path limit session) (expr : String) :
    session.answer expr = Script.answer limit session.definitions expr := by
  rw [Session.answer, Script.answer, evaluate, h.veto, h.limit_eq, h.trace]

theorem working_eq (h : OnFile style path limit session) (entry : Entry) :
    session.working entry.text entry.number
      = { session with reporter := onLine session.reporter path entry } := by
  have hregister : session.reporter.registerLine session.path entry.text entry.number
      = onLine session.reporter path entry := by
    rw [Reporter.registerLine, Reporter.register, h.path_eq, h.origins,
      NameMap.insert_singleton]
    rfl
  have htrace : (onLine session.reporter path entry).trace = false := h.trace
  rw [working, hregister, printSteps_of_not_trace htrace]

theorem storedIn (h : OnFile style path limit session) {expr : String}
    (hgives : Reducer.Gives expr query) :
    OnFile style path limit { session with definitions := query.storedIn session.definitions } :=
  ⟨h.toSound.storedIn hgives, h.style_eq, h.path_eq, h.limit_eq, h.fatal, h.trace, h.origins⟩

theorem keeping (h : OnFile style path limit session) {expr : String}
    (hgives : Reducer.Gives expr query) (text output : String) :
    OnFile style path limit (session.keeping query text output) := by
  have hstored := h.storedIn hgives
  refine ⟨⟨h.veto, hstored.entries⟩, h.style_eq, h.path_eq, h.limit_eq, h.fatal, h.trace, ?_⟩
  rw [Session.keeping]
  dsimp only
  rw [h.path_eq, h.origins, NameMap.insert_singleton]

/-- While an expression is added no more is printed than the warning that it redefines a name. -/
theorem addingOutput_eq (h : OnFile style path limit session) (hne : entry.text ≠ "")
    (query : Query) (text : String) :
    session.addingOutput entry.text entry.number query
      = session.reporter.output ++
          Answered.warning style path ⟨entry, query, text, query.redefined session.definitions⟩ := by
  have hstyle : (onLine session.reporter path entry).style = style := h.style_eq
  rw [addingOutput, h.working_eq]
  cases query with
  | term t => rfl
  | definition name body =>
    rw [storingText, Answered.warning, Query.redefined]
    dsimp only
    by_cases hknown : session.definitions.contains name = true
    · rw [if_pos hknown, if_pos hknown]
      rw [Reporter.warningText_of_activeLines (activeLines_onLine _ path hne) rfl, hstyle]
      rfl
    · rw [if_neg hknown, if_neg hknown]
      rfl

theorem exists_addAll_cons (h : OnFile style path limit session) (hne : entry.text ≠ "")
    (hnumber : Text.Writable entry.number)
    (hanswer : Script.answer limit session.definitions entry.text = .ok (query, text))
    (entries : List Entry) :
    ∃ next, addAll (entry :: entries) session = addAll entries next ∧ OnFile style path limit next ∧
      next.definitions = query.storedIn session.definitions ∧
      next.reporter.output = session.reporter.output ++
        Answered.printed style path ⟨entry, query, text, query.redefined session.definitions⟩ := by
  rw [← h.answer_eq] at hanswer
  have hgives := h.gives_of_answer hanswer
  have hnamed := namedIn_of_gives hgives
  have hnumbered : (session.working entry.text entry.number).reporter.Numbered := by
    rw [h.working_eq]
    exact numbered_onLine session.reporter path hne hnumber
  have hadd := add_eq hanswer hnamed fun _ => hnumbered
  rw [h.addingOutput_eq hne query text] at hadd
  generalize houtput : session.reporter.output ++ Answered.warning style path
    ⟨entry, query, text, query.redefined session.definitions⟩ = output at hadd
  have hkept := h.keeping hgives text output
  let next : Session := { session.keeping query text output with
    reporter := (session.keeping query text output).reporter.print text }
  refine ⟨next, ?_, ?_, rfl, ?_⟩
  · have hback : (session.keeping query text output).results.back? = some text := by
      simp [Session.keeping]
    refine (bind_eq_of_eq_ok _ hadd).trans ((bind_eq_of_eq_ok _ rfl).trans ?_)
    rw [hback]
    exact bind_eq_of_eq_ok _ rfl
  · exact ⟨⟨hkept.veto, hkept.entries⟩, hkept.style_eq, hkept.path_eq, hkept.limit_eq, hkept.fatal,
      hkept.trace, hkept.origins⟩
  · rw [Answered.printed, ← String.append_assoc, ← String.append_assoc, houtput]
    rfl

theorem addAll_cons_of_error (h : OnFile style path limit session)
    (hanswer : Script.answer limit session.definitions entry.text = .error fault)
    (entries : List Entry) :
    addAll (entry :: entries) session
      = .error fault { session with reporter := onLine session.reporter path entry } := by
  rw [← h.answer_eq] at hanswer
  have hadd := add_of_answer_eq_error hanswer entry.number
  rw [h.working_eq] at hadd
  exact bind_eq_of_eq_error _ hadd

theorem endsLine_of_failed (h : OnFile style path limit session)
    (hfailed : (course limit session.definitions entries).failed = some (entry, fault)) :
    fault.EndsLine limit := by
  induction entries generalizing session with
  | nil => cases hfailed
  | cons first entries ih =>
    cases hanswer : Script.answer limit session.definitions first.text with
    | error fault' =>
      rw [course_cons_of_error hanswer] at hfailed
      cases hfailed
      rw [← h.answer_eq] at hanswer
      rw [← h.limit_eq]
      exact h.endsLine_of_answer hanswer
    | ok answer =>
      obtain ⟨query, text⟩ := answer
      rw [course_cons_of_ok hanswer] at hfailed
      rw [← h.answer_eq] at hanswer
      exact ih (h.storedIn (h.gives_of_answer hanswer)) hfailed

end OnFile

end Session

namespace Interpreter

open Script Session

variable {style : Text.Style} {path : String} {limit : Option Int} {session : Session}
  {entry : Entry} {entries : List Entry} {fault : Fault}

/-- What the program shows of some work in a session. -/
def concluded (result : EStateM.Result Fault Session Unit) : Transcript :=
  match result with
  | .ok _ session => conclude session.reporter none
  | .error fault session => conclude session.reporter (some fault)

/-- The fault that ends an expression is reported, and the program exits. -/
theorem conclude_onLine {reporter : Reporter} (hstyle : reporter.style = style)
    (hfatal : reporter.fatal = true) (hne : entry.text ≠ "")
    (hnumber : Text.Writable entry.number) (hfault : fault.IsReportable) :
    conclude (onLine reporter path entry) (some fault)
      = ⟨reporter.output ++ Script.reportText style path entry fault.diagnosis, "",
          some (.exit 1)⟩ := by
  have hstyle' : (onLine reporter path entry).style = style := hstyle
  have hfatal' : (onLine reporter path entry).fatal = true := hfatal
  have hreport := Reporter.report_eq hfault.within (numbered_onLine reporter path hne hnumber)
  rw [if_pos hfatal', Reporter.reportText_of_activeLines (activeLines_onLine _ path hne) hfatal',
    hstyle'] at hreport
  simp only [conclude, Reporter.absorb_eq hfault, hreport]
  rfl

/-- Between two expressions of a file, what the program will show is what it has printed and the
course of the rest. -/
theorem concluded_addAll (h : OnFile style path limit session)
    (hlimit : ∀ n ∈ limit, Text.Writable n) (hfilled : ∀ entry ∈ entries, entry.text ≠ "")
    (hnumbers : ∀ entry ∈ (course limit session.definitions entries).lookedAt,
      Text.Writable entry.number) :
    concluded (addAll entries session)
      = ⟨session.reporter.output ++ (course limit session.definitions entries).printed style path,
          "", (course limit session.definitions entries).failed.map fun _ => .exit 1⟩ := by
  induction entries generalizing session with
  | nil =>
    have hnothing : session.reporter.output ++ Course.printed style path ⟨[], none⟩
        = session.reporter.output := by
      simp [Course.printed]
    rw [course, hnothing]
    rfl
  | cons entry entries ih =>
    obtain ⟨hne, hfilled⟩ := List.forall_mem_cons.mp hfilled
    cases hanswer : Script.answer limit session.definitions entry.text with
    | error fault =>
      have hcourse : course limit session.definitions (entry :: entries) = _ :=
        course_cons_of_error hanswer
      rw [hcourse] at hnumbers ⊢
      have hnumber := hnumbers entry List.mem_cons_self
      have hfault := h.endsLine_of_failed (congrArg Course.failed hcourse)
      rw [h.addAll_cons_of_error hanswer]
      exact conclude_onLine h.style_eq h.fatal hne hnumber (hfault.isExpected hlimit).isReportable
    | ok answer =>
      obtain ⟨query, text⟩ := answer
      have hcourse : course limit session.definitions (entry :: entries) = _ :=
        course_cons_of_ok hanswer
      rw [hcourse] at hnumbers ⊢
      obtain ⟨hnumber, hnumbers⟩ := List.forall_mem_cons.mp hnumbers
      obtain ⟨next, hrun, hnext, hdefinitions, houtput⟩ :=
        h.exists_addAll_cons hne hnumber hanswer entries
      rw [← hdefinitions] at hnumbers
      rw [hrun, ih hnext hfilled hnumbers, hdefinitions, houtput, Course.printed_cons,
        String.append_assoc]
      rfl

theorem startSession_eq {settings : CommandLine.Settings} (htrace : settings.trace = false)
    (hlimit : settings.maxSteps ≠ some .blank) (path : String) :
    startSession style settings path false
      = new (.new style false) path false settings.limit := by
  have hveto : settings.veto = none := by
    rw [CommandLine.Settings.veto]
    split
    · next hblank => exact absurd hblank hlimit
    · rfl
  rw [startSession, hveto, htrace]
  rfl

theorem writable_limit {arguments : List String} {settings : CommandLine.Settings}
    (h : CommandLine.parse arguments = .ok settings) : ∀ n ∈ settings.limit, Text.Writable n := by
  intro n hn
  rw [CommandLine.Settings.limit] at hn
  split at hn
  · next hgiven =>
    cases hn
    exact CommandLine.writable_of_parse h hgiven
  · cases hn

theorem runFile_eq {settings : CommandLine.Settings} (htrace : settings.trace = false)
    (hlimit : settings.maxSteps ≠ some .blank) (hpath : path ≠ typedIn)
    (hzero : '\x00' ∉ path.toList) {contents : String}
    (hwritable : ∀ n ∈ settings.limit, Text.Writable n)
    (hnumbers : ∀ entry ∈ (courseOf settings.limit contents).lookedAt,
      Text.Writable entry.number) :
    runFile style settings path (some contents)
      = (courseOf settings.limit contents).transcript style path := by
  have hsession := new_onFile style path settings.limit
  have hfilled : ∀ entry ∈ Script.entries (Text.lines contents), entry.text ≠ "" :=
    fun entry hmem => text_ne_empty_of_mem_entries hmem
  change concluded (load false (some contents) (startSession style settings path false)) = _
  rw [startSession_eq htrace hlimit, load_eq _ hpath hzero,
    concluded_addAll hsession hwritable hfilled hnumbers]
  exact congrArg (Transcript.mk · "" _) String.empty_append

/-- **Working through a file is a fold that stops at the first failure.** Run on a file that can be
read, with any limit and in any style, without tracing, the program shows the course of its
expressions, each evaluated with the definitions of those before it. The file has no more lines than
there are numbers that can be written. If none fails then all are answered, and the program ends
without an exit. One that fails does so in one of the expected ways, all before it are answered, its
report ends what is printed, and the program exits; and what stands behind it makes no difference, so
that is not evaluated. -/
theorem run_file (style : Text.Style) {arguments : List String} {settings : CommandLine.Settings}
    (harguments : CommandLine.parse arguments = .ok settings) (hjob : settings.job = .file path)
    (htrace : settings.trace = false) (hlimit : settings.maxSteps ≠ some .blank)
    (hpath : path ≠ typedIn) (hzero : '\x00' ∉ path.toList) {read : String → Option String}
    {contents : String} (hread : read path = some contents)
    (hlines : Text.Writable (Text.lines contents).length) (input : String) :
    run style arguments read input = (courseOf settings.limit contents).transcript style path ∧
    ((courseOf settings.limit contents).failed = none →
      (courseOf settings.limit contents).entries = Script.entries (Text.lines contents)) ∧
    ∀ entry fault, (courseOf settings.limit contents).failed = some (entry, fault) →
      fault.IsExpected settings.limit ∧
      (∃ later, Script.entries (Text.lines contents)
        = (courseOf settings.limit contents).entries ++ entry :: later) ∧
      ∀ read' contents' later, read' path = some contents' →
        Script.entries (Text.lines contents')
            = (courseOf settings.limit contents).entries ++ entry :: later →
          run style arguments read' input = run style arguments read input := by
  have hnumbers : ∀ entry ∈ (courseOf settings.limit contents).lookedAt,
      Text.Writable entry.number := by
    intro entry hentry
    obtain ⟨hpos, hle⟩ := number_le_of_mem_entries (mem_of_mem_lookedAt hentry)
    rw [Text.Writable] at hlines ⊢
    omega
  have hrun {read : String → Option String} {contents' : String}
      (hread : read path = some contents')
      (hcourse : courseOf settings.limit contents' = courseOf settings.limit contents) :
      run style arguments read input
        = (courseOf settings.limit contents).transcript style path := by
    rw [run, harguments]
    dsimp only
    rw [hjob]
    dsimp only
    rw [← hcourse] at hnumbers ⊢
    rw [hread]
    exact runFile_eq htrace hlimit hpath hzero (writable_limit harguments) hnumbers
  refine ⟨hrun hread rfl, entries_course, ?_⟩
  intro entry fault hfailed
  obtain ⟨hlater, hsame⟩ := exists_of_failed hfailed
  have hends := (new_onFile style path settings.limit).endsLine_of_failed hfailed
  refine ⟨hends.isExpected (writable_limit harguments), hlater, ?_⟩
  intro read' contents' later hread' hcontents'
  have hcourse : courseOf settings.limit contents' = courseOf settings.limit contents := by
    rw [courseOf, hcontents']
    exact hsame later
  rw [hrun hread' hcourse, hrun hread rfl]

/-- A name is redefined in a line that goes on, the next line is wrong, and what stands behind it
might as well be anything. -/
theorem run_file_redefined :
    run .terminal ["--max-steps", "5", "prog"]
        (fun _ => some "f = \\x. x\nf = f (\nf)\nf g ;; no g\nf") ""
      = (Course.mk
          [⟨⟨"f = \\x. x", 1⟩, .definition "f" (.lam "x" (.var 0)), "f = (\\x. x)", none⟩,
            ⟨⟨"f = f ( f)", 2⟩, .definition "f" (.lam "x" (.var 0)), "f = (\\x. x)", some "f"⟩]
          (some (⟨"f g", 4⟩, .diagnostic (.unbound "f g" "g" 2)))).transcript .terminal "prog" ∧
    run .terminal ["--max-steps", "5", "prog"]
        (fun _ => some "f = \\x. x\nf = f (\nf)\nf g\n) $") ""
      = run .terminal ["--max-steps", "5", "prog"]
          (fun _ => some "f = \\x. x\nf = f (\nf)\nf g ;; no g\nf") "" := by
  have harguments : CommandLine.parse ["--max-steps", "5", "prog"]
      = .ok { file := some "prog", maxSteps := some (.given 5) } := by
    decide +kernel
  have hlines : Text.Writable (Text.lines "f = \\x. x\nf = f (\nf)\nf g ;; no g\nf").length := by
    have hlength : (Text.lines "f = \\x. x\nf = f (\nf)\nf g ;; no g\nf").length = 5 := by
      decide +kernel
    rw [hlength]
    exact Text.writable_of_lt_ten (by decide)
  have hcourse : courseOf (CommandLine.Settings.limit
        { file := some "prog", maxSteps := some (.given 5) })
        "f = \\x. x\nf = f (\nf)\nf g ;; no g\nf"
      = Course.mk
          [⟨⟨"f = \\x. x", 1⟩, .definition "f" (.lam "x" (.var 0)), "f = (\\x. x)", none⟩,
            ⟨⟨"f = f ( f)", 2⟩, .definition "f" (.lam "x" (.var 0)), "f = (\\x. x)", some "f"⟩]
          (some (⟨"f g", 4⟩, .diagnostic (.unbound "f g" "g" 2))) := by
    decide +kernel
  have hlater : Script.entries (Text.lines "f = \\x. x\nf = f (\nf)\nf g\n) $")
      = [⟨"f = \\x. x", 1⟩, ⟨"f = f ( f)", 2⟩] ++ ⟨"f g", 4⟩ :: [⟨") $", 5⟩] := by
    decide +kernel
  obtain ⟨hshown, -, hfails⟩ := @run_file "prog" .terminal _ _ harguments rfl rfl (by decide)
    (by decide) (by decide) (fun _ => some "f = \\x. x\nf = f (\nf)\nf g ;; no g\nf") _ rfl hlines
    ""
  rw [hcourse] at hshown hfails
  obtain ⟨-, -, hsame⟩ := hfails _ _ rfl
  exact ⟨hshown, hsame (fun _ => some "f = \\x. x\nf = f (\nf)\nf g\n) $") _ _ rfl hlater⟩

end Interpreter

end CallByValue
