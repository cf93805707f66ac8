import CallByValue.Proofs.Ending
import CallByValue.Proofs.Script.Cleaning
import CallByValue.Shell
/-!
# What a shell makes of a line

A line is sorted before anything is evaluated: it is a command, or it leaves the shell waiting for
more, or it completes an expression. `move` says which, together with the shell as it stands by
then, and feeding the line is carrying out the move. Only the evaluation of a complete expression
can fail, and it is guarded; by then nothing is pending any more, and the evaluation changes no more
than the session, which adds the text under the number of the line, gives its result back and prints
it.

A line is a command just if nothing but the command's name is left once it is stripped.
-/

namespace CallByValue

namespace Shell

/-! ### Commands -/

theorem isNameChar_of_ofName? {name : String} {command : Command}
    (h : Command.ofName? name = some command) : ∀ c ∈ name.toList, isNameChar c = true := by
  unfold Command.ofName? at h
  split at h
  · next hname =>
    rw [Bool.or_eq_true, decide_eq_true_eq, decide_eq_true_eq] at hname
    rcases hname with rfl | rfl <;> exact List.all_eq_true.mp (by decide)
  · split at h
    · next hname =>
      subst hname
      exact List.all_eq_true.mp (by decide)
    · split at h
      · next hname =>
        subst hname
        exact List.all_eq_true.mp (by decide)
      · cases h

/-- Blanks alone at the end of a stripped text are none at all. -/
theorem eq_nil_of_dropBlank_eq_nil (front : List Char) {rest : List Char}
    (h : Text.Stripped (front ++ rest)) (hrest : Text.dropBlank rest = []) : rest = [] := by
  have hblank : ∀ c ∈ rest, Text.isBlank c = true := List.dropWhile_eq_nil_iff.mp hrest
  have hback := h.back
  rw [Text.dropBlankEnd_append_blank hblank] at hback
  have hle := (Text.dropBlankEnd_prefix_self front).length_le
  rw [hback, List.length_append] at hle
  exact List.eq_nil_of_length_eq_zero (by omega)

theorem stripped_strip (line : String) : Text.Stripped (Text.strip line).toList := by
  rw [Text.toList_strip]
  exact Text.stripped_trim _

theorem command?_of_question {line : String} {rest : List Char}
    (h : (Text.strip line).toList = '?' :: rest) :
    command? line = if rest = [] then some .help else none := by
  have hstripped : Text.Stripped (['?'] ++ rest) := by
    rw [List.singleton_append, ← h]
    exact stripped_strip line
  have hrun : command? line
      = if (Text.dropBlank rest).isEmpty then Command.ofName? "help" else none := by
    rw [command?, h]
    rfl
  by_cases hrest : rest = []
  · rw [hrun, if_pos hrest, hrest]
    rfl
  · have hne : Text.dropBlank rest ≠ [] := fun hnil =>
      hrest (eq_nil_of_dropBlank_eq_nil ['?'] hstripped hnil)
    rw [hrun, if_neg hrest, if_neg (by simpa using hne)]

theorem command?_of_ne_question {line : String}
    (h : ∀ rest, (Text.strip line).toList ≠ '?' :: rest) :
    command? line = Command.ofName? (Text.strip line) := by
  have hstripped := stripped_strip line
  generalize hs : Text.strip line = s at h hstripped
  have hrun : command? line
      = if (Text.dropBlank (s.toList.dropWhile isNameChar)).isEmpty
        then Command.ofName? (String.ofList (s.toList.takeWhile isNameChar)) else none := by
    rw [command?, hs]
    split
    · next rest hrest => exact absurd hrest (h rest)
    · rfl
  rw [hrun]
  split
  · next hblank =>
    have hnil : s.toList.dropWhile isNameChar = [] := by
      refine eq_nil_of_dropBlank_eq_nil (s.toList.takeWhile isNameChar) ?_
        (List.isEmpty_iff.mp hblank)
      rwa [List.takeWhile_append_dropWhile]
    rw [List.takeWhile_eq_self_iff.mpr (List.dropWhile_eq_nil_iff.mp hnil), String.ofList_toList]
  · next hblank =>
    cases hname : Command.ofName? s with
    | none => rfl
    | some command =>
      have hnil : s.toList.dropWhile isNameChar = [] :=
        List.dropWhile_eq_nil_iff.mpr (isNameChar_of_ofName? hname)
      rw [hnil] at hblank
      exact absurd rfl hblank

/-- What can be typed for a command. -/
def Command.spellings : Command → List String
  | .quit => ["q", "exit"]
  | .help => ["help", "?"]
  | .endOfInput => ["EOF"]

theorem Command.ofName?_eq_some_iff {name : String} (hname : name ≠ "?") {command : Command} :
    ofName? name = some command ↔ name ∈ command.spellings := by
  unfold ofName?
  cases command <;> simp only [spellings, List.mem_cons, List.not_mem_nil, or_false] <;> grind

theorem command?_eq_some_iff {line : String} {command : Command} :
    command? line = some command ↔ Text.strip line ∈ command.spellings := by
  by_cases hquestion : ∃ rest, (Text.strip line).toList = '?' :: rest
  · obtain ⟨rest, hrest⟩ := hquestion
    have honly : ∀ s ∈ command.spellings, s.toList.head? = some '?' → s = "?" := by
      cases command <;> decide
    rw [command?_of_question hrest]
    cases rest with
    | nil =>
      have hline : Text.strip line = "?" := String.toList_inj.mp hrest
      rw [hline]
      cases command <;> decide
    | cons c rest =>
      rw [if_neg (List.cons_ne_nil c rest)]
      constructor
      · intro h
        cases h
      · intro hmem
        rw [honly _ hmem (by rw [hrest]; rfl)] at hrest
        cases hrest
  · have hne : Text.strip line ≠ "?" := fun heq => hquestion ⟨[], by rw [heq]; rfl⟩
    rw [command?_of_ne_question fun rest hrest => hquestion ⟨rest, hrest⟩]
    exact Command.ofName?_eq_some_iff hne

theorem command?_eq_none {line : String}
    (h : Text.strip line ∉ ["q", "exit", "help", "?", "EOF"]) : command? line = none := by
  rw [Option.eq_none_iff_forall_ne_some]
  intro command hcommand
  have hmem := command?_eq_some_iff.mp hcommand
  apply h
  cases command <;> simp_all [Command.spellings]

/-! ### Moves -/

inductive Move where
  | perform (command : Command)
  | wait (next : Shell)
  | evaluate (text : String) (next : Shell)

/-- What a line asks for. While an expression is pending, only the end of input is a command. -/
def move (shell : Shell) (line : String) : Move :=
  match (command? line).filter fun command => command = .endOfInput || shell.pending.isEmpty with
  | some command => .perform command
  | none =>
    if (Text.strip line).isEmpty then .wait shell
    else match shell.accept (Text.strip line) with
      | (none, next) => .wait next
      | (some text, next) => .evaluate text next

/-- The pending text together with a line, cleaned. -/
def joined (shell : Shell) (line : String) : String :=
  Script.clean (if shell.pending.isEmpty then line else shell.pending ++ " " ++ line)

theorem joined_strip_of_empty {shell : Shell} (h : shell.pending = "") (line : String) :
    shell.joined (Text.strip line) = Script.clean line := by
  rw [joined, h]
  exact Script.clean_strip line

theorem joined_strip_of_part {shell : Shell} (h : Script.IsPart shell.pending) (line : String) :
    shell.joined (Text.strip line)
      = Text.stripEnd (shell.pending ++ " " ++ Script.clean line) := by
  rw [joined, h.isEmpty_eq_false]
  exact h.clean_join line

/-- The shell that has counted a further line and waits with the text. -/
def waiting (shell : Shell) (text : String) : Shell :=
  { shell with lineNumber := shell.lineNumber + 1, pending := text, prompt := continuationPrompt }

/-- The shell that has counted a further line and waits for a new expression. -/
def idle (shell : Shell) : Shell :=
  { shell with lineNumber := shell.lineNumber + 1, pending := "", prompt := firstPrompt }

theorem accept_eq (shell : Shell) (line : String) :
    shell.accept line
      = if Script.isOpen (shell.joined line) then (none, shell.waiting (shell.joined line))
        else (if (shell.joined line).isEmpty then none else some (shell.joined line), shell.idle) :=
  rfl

theorem move_of_command {shell : Shell} {line : String} {command : Command}
    (hline : (command? line).filter (fun command => command = .endOfInput || shell.pending.isEmpty)
      = some command) : shell.move line = .perform command := by
  unfold move
  rw [hline]

theorem move_eq {shell : Shell} {line : String}
    (hline : (command? line).filter (fun command => command = .endOfInput || shell.pending.isEmpty)
      = none) :
    shell.move line
      = if (Text.strip line).isEmpty then .wait shell
        else if Script.isOpen (shell.joined (Text.strip line)) then
          .wait (shell.waiting (shell.joined (Text.strip line)))
        else if (shell.joined (Text.strip line)).isEmpty then .wait shell.idle
        else .evaluate (shell.joined (Text.strip line)) shell.idle := by
  unfold move
  rw [hline, accept_eq]
  generalize shell.joined (Text.strip line) = text
  generalize (Text.strip line).isEmpty = blank
  cases blank <;> cases Script.isOpen text <;> cases text.isEmpty <;> rfl

/-- Carries out a move that a line asks the shell for. -/
def Move.run (shell : Shell) : Move → EStateM.Result Fault Shell Bool
  | .perform command => Shell.perform command shell
  | .wait next => .ok true next
  | .evaluate text next => ((fun _ => true) <$> guarded (Shell.evaluate text)) next

theorem guarded_take (line : String) (shell : Shell) :
    guarded (take line) shell
      = match shell.accept line with
        | (none, next) => .ok () next
        | (some text, next) => guarded (evaluate text) next := by
  rw [guarded, take, bind_eq_of_eq_ok _ (modifyGet_apply _ shell)]
  rcases shell.accept line with ⟨text | text, next⟩
  · rfl
  · rfl

theorem feed_eq (line : String) (shell : Shell) : feed line shell = (shell.move line).run shell := by
  unfold move
  refine (bind_eq_of_eq_ok _ rfl).trans ?_
  dsimp only
  cases (command? line).filter fun command => command = .endOfInput || shell.pending.isEmpty with
  | some command => rfl
  | none =>
    by_cases hempty : (Text.strip line).isEmpty = true
    · simp only [hempty]
      rfl
    · simp only [hempty]
      change (guarded (take (Text.strip line)) >>= fun _ => pure true) shell = _
      simp only [bind, EStateM.bind, guarded_take]
      rcases shell.accept (Text.strip line) with ⟨text | text, next⟩
      · rfl
      · rfl

/-! ### Evaluations -/

/-- Does the evaluation of a line within a session: the result is taken at once and printed. -/
def evaluation (text : String) (number : Nat) : Session.Action Unit := do
  let _ ← Session.add text number
  let result ← Session.pop
  Session.modifyReporter (·.print result)

theorem guarded_evaluate (text : String) (shell : Shell) :
    guarded (evaluate text) shell
      = match Session.guarded (evaluation text shell.lineNumber) shell.session with
        | .ok _ session => .ok () { shell with session }
        | .error fault session => .error fault { shell with session } := by
  have hrun : evaluate text shell = inSession (evaluation text shell.lineNumber) shell := rfl
  rw [guarded, hrun, inSession, Session.guarded]
  cases evaluation text shell.lineNumber shell.session with
  | ok _ session => rfl
  | error fault session =>
    simp only [inSession, SeqRight.seqRight, EStateM.seqRight]
    cases Session.reporting (Reporter.absorb fault) session <;> rfl

end Shell

end CallByValue
