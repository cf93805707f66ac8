import CallByValue.Proofs.Script.Grouping
import CallByValue.Proofs.Shell.Moves
import CallByValue.Text.Terminal
/-!
# A shell and a file cut lines into the same expressions

A file is cut into expressions before any of them is evaluated, a shell evaluates each expression as
soon as it is complete, and the two join lines by different rules: a file cleans a line and then
joins it to the expression before, a shell joins it to the pending text and then cleans the whole.
What keeps the two in step is that the pending text of the shell is the latest expression of the
grouping while that goes on, and that it is stripped and free of comments.
-/

namespace CallByValue

namespace Shell

/-! ### What is evaluated -/

/-- The shell after some work, whether the work came to its end or not. -/
def after {α : Type} (work : Action α) (shell : Shell) : Shell :=
  match work shell with
  | .ok _ next => next
  | .error _ next => next

/-- What a move gives the session to evaluate, if anything. -/
def Move.text? : Move → Option String
  | .perform _ => none
  | .wait _ => none
  | .evaluate text _ => some text

/-- What the session is given to evaluate while the lines are fed to the shell one after another,
however each evaluation ends. -/
def evaluated : List String → Shell → List String
  | [], _ => []
  | line :: lines, shell =>
    (shell.move line).text?.toList ++ evaluated lines (after (feed line) shell)

/-- The shell after the lines, however each evaluation ended. -/
def afterAll (lines : List String) (shell : Shell) : Shell :=
  lines.foldl (fun shell line => after (feed line) shell) shell

/-- The expression that waits for a further line, if one does. -/
def unfinished (shell : Shell) : List String :=
  if shell.pending.isEmpty then [] else [shell.pending]

/-! ### One line -/

theorem pending_after_evaluate (text : String) (shell : Shell) :
    (after ((fun _ => true) <$> guarded (evaluate text)) shell).pending = shell.pending := by
  simp only [after, Functor.map, EStateM.map, guarded_evaluate]
  cases Session.guarded (evaluation text shell.lineNumber) shell.session <;> rfl

/-- What becomes of a line that is no command: a blank one changes nothing, and otherwise the text
that it completes is evaluated, or is left pending if it is still open. -/
theorem feed_cases {shell : Shell} {line : String} (hline : command? line = none) :
    (Text.strip line = "" ∧ (shell.move line).text? = none ∧
      (after (feed line) shell).pending = shell.pending) ∨
    (Script.isOpen (shell.joined (Text.strip line)) = true ∧ (shell.move line).text? = none ∧
      (after (feed line) shell).pending = shell.joined (Text.strip line)) ∨
    (Script.isOpen (shell.joined (Text.strip line)) = false ∧
      (shell.move line).text?.toList
        = (if (shell.joined (Text.strip line)).isEmpty then []
            else [shell.joined (Text.strip line)]) ∧
      (after (feed line) shell).pending = "") := by
  rw [after, feed_eq, move_eq (by rw [hline]; rfl)]
  by_cases hblank : (Text.strip line).isEmpty = true
  · simp only [if_pos hblank]
    exact .inl ⟨String.isEmpty_iff.mp hblank, rfl, rfl⟩
  · apply Or.inr
    simp only [if_neg hblank]
    generalize shell.joined (Text.strip line) = text
    cases hopen : Script.isOpen text with
    | true => exact .inl ⟨rfl, rfl, rfl⟩
    | false =>
      refine .inr ⟨rfl, ?_⟩
      by_cases hempty : text.isEmpty = true
      · simp only [if_pos hempty]
        exact ⟨rfl, rfl⟩
      · simp only [if_neg hempty]
        exact ⟨rfl, pending_after_evaluate text _⟩

/-! ### In step -/

/-- The grouping holds the texts, the latest first, and in front of them what is pending. -/
structure Mirrors (shell : Shell) (texts : List String) (grouping : Script.Grouping) : Prop where
  entries : grouping.entries.map Script.Entry.text = shell.unfinished ++ texts.reverse
  continuing : grouping.continuing = !shell.pending.isEmpty
  pending : shell.pending ≠ "" → Script.IsPart shell.pending

namespace Mirrors

variable {shell : Shell} {texts : List String} {grouping : Script.Grouping}

theorem pending_cases (h : Mirrors shell texts grouping) :
    shell.pending = "" ∨ Script.IsPart shell.pending := by
  by_cases hpending : shell.pending = ""
  · exact .inl hpending
  · exact .inr (h.pending hpending)

theorem joined_blank (h : Mirrors shell texts grouping) {line : String}
    (hline : Text.strip line = "") : shell.joined (Text.strip line) = shell.pending := by
  have hclean : Script.clean line = "" := by
    rw [← Script.clean_strip, hline]
    rfl
  rcases h.pending_cases with hempty | hpart
  · rw [joined_strip_of_empty hempty, hclean, hempty]
  · rw [joined_strip_of_part hpart, hclean, hpart.stripEnd_join_empty]

/-- A line goes into the latest expression of a grouping as it goes into the pending text. -/
theorem grouping_feed (h : Mirrors shell texts grouping) (number : Int) (line : String) :
    (grouping.feed number line).2.entries.map Script.Entry.text
        = (if (shell.joined (Text.strip line)).isEmpty then []
            else [shell.joined (Text.strip line)]) ++ texts.reverse ∧
      (grouping.feed number line).2.continuing
        = Script.isOpen (shell.joined (Text.strip line)) := by
  obtain ⟨hentries, hcontinuing, -⟩ := id h
  obtain ⟨entries, continuing⟩ := grouping
  dsimp only at hentries hcontinuing
  rcases h.pending_cases with hempty | hpart
  · rw [unfinished, hempty] at hentries
    obtain rfl : continuing = false := hcontinuing.trans (by rw [hempty]; rfl)
    rw [joined_strip_of_empty hempty, Script.Grouping.feed_fresh]
    generalize Script.clean line = text
    refine ⟨?_, rfl⟩
    dsimp only
    cases text.isEmpty with
    | true => exact hentries
    | false => exact congrArg (text :: ·) hentries
  · rw [unfinished, hpart.isEmpty_eq_false] at hentries
    obtain rfl : continuing = true := hcontinuing.trans (by rw [hpart.isEmpty_eq_false]; rfl)
    obtain ⟨latest, earlier, rfl, hlatest, hearlier⟩ := List.map_eq_cons_iff.mp hentries
    rw [joined_strip_of_part hpart, Script.Grouping.feed_continued, hlatest,
      if_neg (by simpa using hpart.stripEnd_join_ne_empty _)]
    generalize Text.stripEnd (shell.pending ++ " " ++ Script.clean line) = text
    exact ⟨congrArg (text :: ·) hearlier, rfl⟩

theorem step (h : Mirrors shell texts grouping) (number : Int) {line : String}
    (hline : command? line = none) :
    Mirrors (after (feed line) shell) (texts ++ (shell.move line).text?.toList)
      (grouping.feed number line).2 := by
  obtain ⟨hentries, hcontinuing⟩ := h.grouping_feed number line
  rcases feed_cases hline with ⟨hblank, htext, hpending⟩ | ⟨hopen, htext, hpending⟩ |
    ⟨hopen, htext, hpending⟩
  · rw [h.joined_blank hblank] at hentries hcontinuing
    refine ⟨?_, ?_, ?_⟩
    · rw [hentries, unfinished, hpending, htext, Option.toList_none, List.append_nil]
    · rw [hcontinuing, hpending]
      rcases h.pending_cases with hempty | hpart
      · rw [hempty]
        rfl
      · rw [hpart.isOpen, hpart.isEmpty_eq_false]
        rfl
    · rw [hpending]
      exact h.pending
  · have hpart : Script.IsPart (shell.joined (Text.strip line)) := Script.isPart_clean hopen
    refine ⟨?_, ?_, ?_⟩
    · rw [hentries, unfinished, hpending, htext, Option.toList_none, List.append_nil]
    · rw [hcontinuing, hpending, hopen, hpart.isEmpty_eq_false]
      rfl
    · rw [hpending]
      exact fun _ => hpart
  · refine ⟨?_, ?_, ?_⟩
    · rw [hentries, unfinished, hpending, htext, List.reverse_append]
      split <;> rfl
    · rw [hcontinuing, hpending, hopen]
      rfl
    · rw [hpending]
      exact fun hne => absurd rfl hne

theorem run (h : Mirrors shell texts grouping) (number : Int) {lines : List String}
    (hlines : ∀ line ∈ lines, command? line = none) :
    Mirrors (afterAll lines shell) (texts ++ evaluated lines shell)
      (grouping.feedAll number lines) := by
  induction lines generalizing shell texts grouping number with
  | nil => simpa [afterAll, evaluated, Script.Grouping.feedAll] using h
  | cons line lines ih =>
    have hnext := h.step number (hlines line List.mem_cons_self)
    have hrest := ih hnext (number + 1) fun other hother =>
      hlines other (List.mem_cons_of_mem _ hother)
    rw [evaluated, ← List.append_assoc, Script.Grouping.feedAll, afterAll, List.foldl_cons]
    exact hrest

end Mirrors

/-- **A shell and a file cut the same lines into the same expressions.** Feeding a line to a shell is
carrying out its move, and to evaluate a text is to add it to the session under the number of the
line, to take the result and to print it; so the texts of the moves are what the session adds. If no
line is a command, these texts, followed by the one that is still pending, are those of the
expressions that the lines would make up in a file. Neither the session nor the outcome of any
evaluation matters. -/
theorem evaluated_append_unfinished (session : Session) (lines : List String)
    (hlines : ∀ line ∈ lines, Text.strip line ∉ ["q", "exit", "help", "?", "EOF"]) :
    (∀ line shell, feed line shell = (shell.move line).run shell) ∧
    (∀ text (shell : Shell), guarded (evaluate text) shell
      = match Session.guarded (do
            let _ ← Session.add text shell.lineNumber
            let result ← Session.pop
            Session.modifyReporter (·.print result)) shell.session with
        | .ok _ session => .ok () { shell with session }
        | .error fault session => .error fault { shell with session }) ∧
    evaluated lines (new session) ++ unfinished (afterAll lines (new session))
      = (Script.entries lines).map Script.Entry.text := by
  refine ⟨feed_eq, guarded_evaluate, ?_⟩
  have hfresh : Mirrors (new session) [] .empty := ⟨rfl, rfl, fun hne => absurd rfl hne⟩
  have hlast := hfresh.run 1 fun line hline => command?_eq_none (hlines line hline)
  rw [Script.entries, List.map_reverse, hlast.entries, List.nil_append, List.reverse_append,
    List.reverse_reverse, unfinished]
  split <;> rfl

/-- A command that is not alone on its line is an expression, a comment and a blank line in the
middle of an expression are left out, and the last expression is never completed. -/
theorem evaluated_append_unfinished_mixed :
    evaluated ["q ;; quits", "(id", " ;; (", "", "  ? x) ", "!(", "exit ; ; ("]
        (new (Session.new (.new .terminal false) Session.typedIn true none))
      = ["q", "(id ? x)"] ∧
    unfinished (afterAll ["q ;; quits", "(id", " ;; (", "", "  ? x) ", "!(", "exit ; ; ("]
        (new (Session.new (.new .terminal false) Session.typedIn true none)))
      = ["!( exit ; ; ("] ∧
    (Script.entries ["q ;; quits", "(id", " ;; (", "", "  ? x) ", "!(", "exit ; ; ("]).map
        Script.Entry.text
      = ["q", "(id ? x)", "!( exit ; ; ("] := by
  have hcut := (evaluated_append_unfinished (Session.new (.new .terminal false) Session.typedIn true none)
    ["q ;; quits", "(id", " ;; (", "", "  ? x) ", "!(", "exit ; ; ("] (by decide +kernel)).2.2
  have hentries : (Script.entries ["q ;; quits", "(id", " ;; (", "", "  ? x) ", "!(",
      "exit ; ; ("]).map Script.Entry.text = ["q", "(id ? x)", "!( exit ; ; ("] := by
    decide +kernel
  have hpending : unfinished (afterAll ["q ;; quits", "(id", " ;; (", "", "  ? x) ", "!(",
      "exit ; ; ("] (new (Session.new (.new .terminal false) Session.typedIn true none)))
      = ["!( exit ; ; ("] := by
    decide +kernel
  rw [hpending, hentries] at hcut
  exact ⟨List.append_cancel_right hcut, hpending, hentries⟩

end Shell

end CallByValue
