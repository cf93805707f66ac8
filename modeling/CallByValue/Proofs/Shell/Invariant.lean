import CallByValue.Proofs.Session.Interactive
import CallByValue.Proofs.Shell.Moves
/-!
# What every shell keeps

Between two lines a shell is settled: its session is at rest, with no result left over and no line
registered, the prompt says whether an expression is pending, and what is pending can be continued.
Every line leaves the shell settled, whether it is a command, is blank, goes on with an expression,
or completes one that is evaluated or fails at any point; and no fault gets out. Only the lines that
ask for it end the shell. The limit and the number of the line have to be such that they can be
written, and the number grows by at most one with every line.
-/

namespace CallByValue

/-! ### The session -/

/-- An orderly session for typed lines with no result left over and no line registered, and with a
limit that can be written. -/
structure Session.Resting (session : Session) : Prop extends Session.Orderly session where
  limit : ∀ n ∈ session.limit, Text.Writable n
  path_eq : session.path = typedIn
  results : session.results = #[]
  origins : session.reporter.origins.entries = [(typedIn, .unset)]

namespace Session.Resting

variable {session : Session}

theorem new (style : Text.Style) (trace : Bool) {limit : Option Int}
    (h : ∀ n ∈ limit, Text.Writable n) :
    (Session.new (.new style trace) typedIn true limit).Resting :=
  ⟨new_orderly _ _ _, h, rfl, rfl, rfl⟩

theorem legible (h : session.Resting) : session.Legible := by
  refine ⟨h.limit, ?_⟩
  intro line hline
  obtain ⟨hmem, -⟩ := Reporter.mem_activeLines.mp hline
  rw [h.origins, List.mem_singleton] at hmem
  cases congrArg (·.2.text) hmem

theorem printing (h : session.Resting) (output : String) :
    { session with reporter := { session.reporter with output } }.Resting :=
  ⟨h.toOrderly.reporting h.registered output session.results, h.limit, h.path_eq, h.results,
    h.origins⟩

theorem recovered (h : session.Resting) (output : String) : (session.recovered output).Resting := by
  refine ⟨h.toOrderly.recovered output, h.limit, h.path_eq, h.results, ?_⟩
  dsimp only [Session.recovered, NameMap.fill]
  rw [h.origins]
  rfl

/-- A result that is kept and taken at once leaves the session at rest. -/
theorem of_keeping (h : session.Resting) {query : Query} {text output : String}
    (hkeeping : (session.keeping query text output).Orderly) (output' : String) :
    { session.keeping query text output with
      results := #[]
      reporter := { (session.keeping query text output).reporter with output := output' }
    }.Resting := by
  refine ⟨hkeeping.reporting hkeeping.registered output' #[], h.limit, h.path_eq, rfl, ?_⟩
  dsimp only [Session.keeping, NameMap.insert]
  rw [h.origins, h.path_eq]
  rfl

theorem exists_guarded_evaluation (h : session.Resting) (text : String) {number : Nat}
    (hnumber : Text.Writable number) :
    ∃ outcome next, guarded (Shell.evaluation text number) session = .ok outcome next ∧
      next.Resting := by
  cases hanswer : session.answer text with
  | error fault =>
    obtain ⟨output, hguarded⟩ := h.exists_guarded_bind_of_error h.legible hnumber hanswer
      fun _ => pop >>= fun result => modifyReporter (·.print result)
    exact ⟨none, _, hguarded, h.recovered output⟩
  | ok answer =>
    obtain ⟨query, result⟩ := answer
    obtain ⟨output, hadd⟩ := h.exists_add_of_ok h.legible hnumber hanswer
    have hpop : pop (session.keeping query result output)
        = .ok result { session.keeping query result output with results := #[] } := by
      refine (bind_eq_of_eq_ok _ rfl).trans ?_
      have hresults : (session.keeping query result output).results = #[result] := by
        dsimp only [Session.keeping]
        rw [h.results]
        rfl
      rw [hresults]
      rfl
    have hrun : Shell.evaluation text number session
        = .ok () { session.keeping query result output with
            results := #[]
            reporter := (session.keeping query result output).reporter.print result } :=
      (bind_eq_of_eq_ok _ hadd).trans ((bind_eq_of_eq_ok _ hpop).trans rfl)
    exact ⟨some (), _, guarded_of_ok hrun, h.of_keeping (h.toOrderly.keeping hanswer output) _⟩

end Session.Resting

/-! ### The shell -/

namespace Shell

/-- A shell between two lines. -/
structure Settled (shell : Shell) : Prop where
  session : shell.session.Resting
  prompt : shell.prompt = if shell.pending.isEmpty then firstPrompt else continuationPrompt
  pending : shell.pending ≠ "" → Script.IsPart shell.pending

/-- The lines that end a shell: the end of input always does, and quitting unless an expression is
pending. -/
def EndedBy (shell : Shell) (line : String) : Prop :=
  Text.strip line = "EOF" ∨ (Text.strip line = "q" ∨ Text.strip line = "exit") ∧ shell.pending = ""

variable {shell : Shell} {line : String}

theorem Settled.withSession (h : shell.Settled) {session : Session} (hsession : session.Resting) :
    { shell with session }.Settled :=
  ⟨hsession, h.prompt, h.pending⟩

theorem Settled.idle (h : shell.Settled) : shell.idle.Settled :=
  ⟨h.session, rfl, fun hne => absurd rfl hne⟩

theorem Settled.waiting (h : shell.Settled) {text : String} (htext : Script.IsPart text) :
    (shell.waiting text).Settled := by
  have hne : ¬ text.isEmpty = true := by simp [htext.isEmpty_eq_false]
  exact ⟨h.session, (if_neg hne).symm, fun _ => htext⟩

theorem isPart_joined (h : Script.isOpen (shell.joined line) = true) :
    Script.IsPart (shell.joined line) :=
  Script.isPart_clean h

theorem endedBy_iff_of_command {command : Command}
    (h : (command? line).filter (fun command => command = .endOfInput || shell.pending.isEmpty)
      = some command) :
    shell.EndedBy line ↔ command ≠ .help := by
  obtain ⟨hcommand, hallowed⟩ := Option.filter_eq_some_iff.mp h
  have hspelled := command?_eq_some_iff.mp hcommand
  rw [EndedBy]
  cases command with
  | quit =>
    have hpending : shell.pending = "" := by simpa using hallowed
    have hquit : Text.strip line = "q" ∨ Text.strip line = "exit" := by
      simpa [Command.spellings] using hspelled
    simp [hquit, hpending]
  | help =>
    have hhelp : Text.strip line = "help" ∨ Text.strip line = "?" := by
      simpa [Command.spellings] using hspelled
    rcases hhelp with hhelp | hhelp <;> simp [hhelp]
  | endOfInput =>
    have hend : Text.strip line = "EOF" := by simpa [Command.spellings] using hspelled
    simp [hend]

theorem not_endedBy_of_no_command
    (h : (command? line).filter (fun command => command = .endOfInput || shell.pending.isEmpty)
      = none) :
    ¬ shell.EndedBy line := by
  rw [Option.filter_eq_none_iff] at h
  rintro (hend | ⟨hquit, hpending⟩)
  · have hcommand : command? line = some .endOfInput := by
      rw [command?_eq_some_iff, hend]
      decide
    exact absurd rfl (h _ hcommand)
  · have hcommand : command? line = some .quit := by
      rw [command?_eq_some_iff]
      rcases hquit with hquit | hquit <;> rw [hquit] <;> decide
    exact absurd (by simp [hpending]) (h _ hcommand)

theorem Settled.exists_perform (h : shell.Settled) (command : Command) :
    ∃ goesOn next, perform command shell = .ok goesOn next ∧ next.Settled ∧
      next.lineNumber = shell.lineNumber ∧ (goesOn = false ↔ command ≠ .help) := by
  cases command with
  | quit => exact ⟨false, shell, rfl, h, rfl, by simp⟩
  | help => exact ⟨true, _, rfl, h.withSession (h.session.printing _), rfl, by simp⟩
  | endOfInput => exact ⟨false, _, rfl, h.withSession (h.session.printing _), rfl, by simp⟩

theorem Settled.exists_evaluate (h : shell.Settled) (hnumber : Text.Writable shell.lineNumber)
    (text : String) :
    ∃ next, ((fun _ => true) <$> guarded (evaluate text)) shell = .ok true next ∧ next.Settled ∧
      next.lineNumber = shell.lineNumber := by
  obtain ⟨outcome, session, hrun, hsession⟩ := h.session.exists_guarded_evaluation text hnumber
  refine ⟨{ shell with session }, ?_, h.withSession hsession, rfl⟩
  simp only [Functor.map, EStateM.map, guarded_evaluate, hrun]

theorem Settled.exists_feed (h : shell.Settled)
    (hnumber : Text.Writable (shell.lineNumber + 1 : Nat)) (line : String) :
    ∃ goesOn next, feed line shell = .ok goesOn next ∧ next.Settled ∧
      next.lineNumber ≤ shell.lineNumber + 1 ∧ (goesOn = false ↔ shell.EndedBy line) := by
  rw [feed_eq]
  cases hcommand : (command? line).filter
      fun command => command = .endOfInput || shell.pending.isEmpty with
  | some command =>
    obtain ⟨goesOn, next, hperform, hnext, hcount, hgoesOn⟩ := h.exists_perform command
    refine ⟨goesOn, next, ?_, hnext, by omega,
      hgoesOn.trans (endedBy_iff_of_command hcommand).symm⟩
    rw [move_of_command hcommand]
    exact hperform
  | none =>
    have hgoes := not_endedBy_of_no_command hcommand
    suffices ∃ next, (shell.move line).run shell = .ok true next ∧ next.Settled ∧
        next.lineNumber ≤ shell.lineNumber + 1 by
      obtain ⟨next, hrun, hnext, hcount⟩ := this
      exact ⟨true, next, hrun, hnext, hcount, by simp [hgoes]⟩
    rw [move_eq hcommand]
    split
    · exact ⟨shell, rfl, h, Nat.le_succ _⟩
    · split
      · next hopen => exact ⟨_, rfl, h.waiting (isPart_joined hopen), Nat.le_refl _⟩
      · split
        · exact ⟨_, rfl, h.idle, Nat.le_refl _⟩
        · obtain ⟨next, hrun, hnext, hcount⟩ := h.idle.exists_evaluate hnumber _
          exact ⟨next, hrun, hnext, Nat.le_of_eq hcount⟩

theorem Settled.exists_mapM_feed (h : shell.Settled) {lines : List String}
    (hnumbers : Text.Writable (shell.lineNumber + lines.length : Nat)) :
    ∃ answers last, lines.mapM feed shell = .ok answers last ∧ last.Settled ∧
      last.lineNumber ≤ shell.lineNumber + lines.length := by
  induction lines generalizing shell with
  | nil => exact ⟨[], shell, rfl, h, Nat.le_refl _⟩
  | cons line lines ih =>
    rw [List.length_cons] at hnumbers ⊢
    obtain ⟨goesOn, next, hfeed, hnext, hcount, -⟩ :=
      h.exists_feed (hnumbers.of_le (by omega)) line
    obtain ⟨answers, last, hrun, hlast, hcounts⟩ := ih hnext (hnumbers.of_le (by omega))
    exact ⟨goesOn :: answers, last, mapM_cons_of_eq_ok hfeed hrun, hlast, by omega⟩

/-- **A shell stays settled.** Whatever lines are fed to a new shell, and with any limit, tracing and
style, no fault gets out, as long as the limit and the count of the lines can be written. No result
is left over and no line is registered, errors are not fatal, the prompt says whether an expression
is pending, and a pending text is stripped, has no comment mark and opens more parentheses than it
closes. And the next line is dealt with too, and ends the shell just if it is the end of input, or
asks to quit while nothing is pending. -/
theorem feed_stays_settled (style : Text.Style) (trace : Bool) {limit : Option Int}
    (hlimit : ∀ n ∈ limit, Text.Writable n) {lines : List String}
    (hlines : Text.Writable (lines.length + 1 : Nat)) :
    ∃ answers shell,
      lines.mapM feed (new (Session.new (.new style trace) Session.typedIn true limit))
        = .ok answers shell ∧
      shell.session.results = #[] ∧
      shell.session.reporter.origins.entries = [(Session.typedIn, .unset)] ∧
      shell.session.reporter.fatal = false ∧
      (shell.prompt = if shell.pending = "" then "> " else ". ") ∧
      (shell.pending ≠ "" →
        Text.strip shell.pending = shell.pending ∧
        ¬ Script.commentMark <:+: shell.pending.toList ∧
        shell.pending.toList.count ')' < shell.pending.toList.count '(') ∧
      ∀ line, ∃ goesOn next, feed line shell = .ok goesOn next ∧
        (goesOn = false ↔ Text.strip line = "EOF" ∨
          (Text.strip line = "q" ∨ Text.strip line = "exit") ∧ shell.pending = "") := by
  have hnew : (new (Session.new (.new style trace) Session.typedIn true limit)).Settled :=
    ⟨.new style trace hlimit, rfl, fun hne => absurd rfl hne⟩
  have hnumbers : Text.Writable (0 + lines.length : Nat) := hlines.of_le (by omega)
  obtain ⟨answers, shell, hrun, hshell, hcount⟩ := hnew.exists_mapM_feed hnumbers
  have hfirst : shell.lineNumber ≤ 0 + lines.length := hcount
  refine ⟨answers, shell, hrun, hshell.session.results, hshell.session.origins,
    hshell.session.fatal, ?_, ?_, ?_⟩
  · have hprompt := hshell.prompt
    simp only [String.isEmpty_iff] at hprompt
    exact hprompt
  · intro hpending
    have hpart := hshell.pending hpending
    exact ⟨hpart.stripped, hpart.noComment, of_decide_eq_true hpart.isOpen⟩
  · intro line
    obtain ⟨goesOn, next, hfeed, -, -, hgoesOn⟩ :=
      hshell.exists_feed (hlines.of_le (by omega)) line
    exact ⟨goesOn, next, hfeed, hgoesOn⟩

/-- The first line fails, the second is left open and the third does not complete it, although it is
the name of a command. -/
theorem feed_stays_settled_open :
    ∃ answers shell,
      ["(\\x. x x) (\\x. x x)", "(\\x.", "q"].mapM feed
          (new (Session.new (.new .terminal true) Session.typedIn true (some (-7))))
        = .ok answers shell ∧
      shell.pending = "(\\x. q" ∧ shell.prompt = ". " ∧
      shell.session.reporter.origins.entries = [(Session.typedIn, .unset)] := by
  have hlimit : ∀ n ∈ some (-7 : Int), Text.Writable n :=
    Text.writable_of_mem_some (by decide)
  have hlines : Text.Writable
      (["(\\x. x x) (\\x. x x)", "(\\x.", "q"].length + 1 : Nat) :=
    Text.writable_of_lt_ten (by decide)
  obtain ⟨answers, shell, hrun, -, horigins, -, hprompt, -⟩ :=
    feed_stays_settled .terminal true hlimit hlines
  have hpending : (match ["(\\x. x x) (\\x. x x)", "(\\x.", "q"].mapM feed
        (new (Session.new (.new .terminal true) Session.typedIn true (some (-7)))) with
      | .ok _ shell => shell.pending
      | .error _ _ => "") = "(\\x. q" := by
    decide +kernel
  rw [hrun] at hpending
  dsimp only at hpending
  refine ⟨answers, shell, hrun, hpending, ?_, horigins⟩
  rw [hprompt, hpending]
  rfl

end Shell

end CallByValue
