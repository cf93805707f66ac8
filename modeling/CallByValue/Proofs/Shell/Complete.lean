import CallByValue.Proofs.Parser.Parentheses
import CallByValue.Proofs.Script.Grouping
import CallByValue.Proofs.Shell.Moves
import CallByValue.Proofs.Tokenization
import CallByValue.Text.Terminal
/-!
# A complete line is not held back

Whether a line goes on is decided before it is read, from its characters alone: what looks like a
comment is cut off, and the parentheses are counted in what is left. A line that can be read has
nothing in it that looks like a comment, and it closes what it opens. So it is taken as it stands
but for the blanks around it, which do not change what it is read as, and where nothing is pending
the shell evaluates it at once, unless it is nothing but the name of a command.
-/

namespace CallByValue

/-! ### Blanks around a line -/

theorem cutsInto_of_strip {expr : String} {lexemes : List Lexeme}
    (h : CutsInto (Text.strip expr) lexemes) : CutsInto expr lexemes := by
  obtain ⟨front, back, hfront, hback, hexpr⟩ := Text.exists_eq_append_strip expr
  have hspells : Token.Spells ((Text.strip expr).toList ++ (back ++ [])) (lexemes ++ []) := by
    apply h.spells.append (.blanks hback .nil)
    rw [List.append_nil]
    intro c hc
    exact Token.isLetter_eq_false_of_isBlank (hback c (List.mem_of_mem_head? hc))
  rw [List.append_nil, List.append_nil] at hspells
  apply cutsInto_of_spells
  rw [hexpr]
  exact .blanks hfront hspells

theorem cutsInto_strip_iff {expr : String} {lexemes : List Lexeme} :
    CutsInto (Text.strip expr) lexemes ↔ CutsInto expr lexemes := by
  refine ⟨cutsInto_of_strip, ?_⟩
  intro h
  obtain ⟨tokens, stop, htokens, -⟩ := id h
  obtain ⟨front, back, -, -, hexpr⟩ := Text.exists_eq_append_strip expr
  have hall := exists_tokenize_iff.mp ⟨_, htokens⟩
  rw [hexpr] at hall
  -- The stripped line can be cut, since all its characters can stand in a line.
  obtain ⟨tokens', htokens'⟩ := exists_tokenize_iff.mpr fun c hc =>
    hall c (List.mem_append_right _ (List.mem_append_left _ hc))
  obtain ⟨body, rfl, -⟩ := tokenize_eq_ok htokens'
  have hstripped : CutsInto (Text.strip expr) (body.map Token.lexeme) := ⟨body, _, htokens', rfl⟩
  rw [h.unique (cutsInto_of_strip hstripped)]
  exact hstripped

theorem parse_strip_iff {definitions : Definitions} {expr : String} {query : Query} :
    parse definitions (Text.strip expr) = .ok query ↔ parse definitions expr = .ok query := by
  simp only [parse_eq_ok_iff, standsFor_iff, cutsInto_strip_iff]

/-! ### Lines that are read -/

section Read

variable {definitions : Definitions} {expr : String} {query : Query}
  (h : parse definitions expr = .ok query)

include h

theorem not_infix_of_parse : ¬ Script.commentMark <:+: expr.toList := by
  intro hcomment
  obtain ⟨tokens, stop, named, htokens, -, -⟩ := standsFor_of_parse h
  have hmark := exists_tokenize_iff.mp ⟨_, htokens⟩ ';' (hcomment.subset (by decide))
  exact absurd hmark (by decide)

theorem ne_empty_of_parse : expr ≠ "" := by
  rintro rfl
  obtain ⟨lexemes, named, hcuts, hquery, -⟩ := standsFor_iff.mp (standsFor_of_parse h)
  have hnil : CutsInto "" [] := cutsInto_of_spells .nil
  exact hquery.ne_nil (hcuts.unique hnil)

theorem isWhole_strip_of_parse : Script.IsWhole (Text.strip expr) := by
  have hstrip := parse_strip_iff.mpr h
  apply Script.isWhole_of_stripped (ne_empty_of_parse hstrip)
  · rw [← Script.clean_of_not_infix (not_infix_of_parse h)]
    exact Script.strip_clean expr
  · exact not_infix_of_parse hstrip
  · exact (parens_of_parse hstrip).2

theorem clean_of_parse : Script.clean expr = Text.strip expr :=
  Script.clean_of_not_infix (not_infix_of_parse h)

theorem feed_of_parse (entries : List Script.Entry) (number : Int) :
    (Script.Grouping.mk entries false).feed number expr
      = (Text.strip expr, ⟨⟨Text.strip expr, number⟩ :: entries, false⟩) := by
  have hwhole := isWhole_strip_of_parse h
  have hempty : (Text.strip expr).isEmpty = false := by simpa using hwhole.ne_empty
  rw [Script.Grouping.feed_fresh, clean_of_parse h, hempty, hwhole.isOpen]
  rfl

theorem command?_of_parse (hline : Text.strip expr ∉ ["q", "exit", "help", "EOF"]) :
    Shell.command? expr = none := by
  have hquestion : Text.strip expr ≠ "?" := by
    intro heq
    obtain ⟨tokens, stop, named, htokens, -, -⟩ := standsFor_of_parse (parse_strip_iff.mpr h)
    have hmark := exists_tokenize_iff.mp ⟨_, htokens⟩ '?' (by rw [heq]; decide)
    exact absurd hmark (by decide)
  apply Shell.command?_eq_none
  simpa [hquestion] using hline

theorem move_of_parse {shell : Shell} (hpending : shell.pending = "")
    (hline : Text.strip expr ∉ ["q", "exit", "help", "EOF"]) :
    shell.move expr = .evaluate (Text.strip expr) shell.idle := by
  have hwhole := isWhole_strip_of_parse h
  have hempty : ¬ (Text.strip expr).isEmpty = true := by simpa using hwhole.ne_empty
  have hcommand := command?_of_parse h hline
  rw [Shell.move_eq (by rw [hcommand]; rfl), if_neg hempty,
    Shell.joined_strip_of_empty hpending, clean_of_parse h, hwhole.isOpen, if_neg hempty]
  rfl

end Read

/-- **A complete line is never held back.** A line that can be read has no comment mark in it, along
it never more parentheses are closed than opened, and in all as many. Where no expression is being
continued, it is taken as an expression of its own, without the blanks around it, and that is read as
the line is. So where nothing is pending the shell evaluates it at once, unless it is just the name
of a command: it is added to the session under the number of the line, and its result is taken and
printed. -/
theorem read_line_is_complete {definitions : Definitions} {expr : String} {query : Query}
    (h : parse definitions expr = .ok query) :
    ¬ Script.commentMark <:+: expr.toList ∧
    (∀ front, front <+: expr.toList → front.count ')' ≤ front.count '(') ∧
    expr.toList.count ')' = expr.toList.count '(' ∧
    (∀ entries number, (Script.Grouping.mk entries false).feed number expr
      = (Text.strip expr, ⟨⟨Text.strip expr, number⟩ :: entries, false⟩)) ∧
    parse definitions (Text.strip expr) = .ok query ∧
    (∀ text (shell : Shell), Shell.guarded (Shell.evaluate text) shell
      = match Session.guarded (do
            let _ ← Session.add text shell.lineNumber
            let result ← Session.pop
            Session.modifyReporter (·.print result)) shell.session with
        | .ok _ session => .ok () { shell with session }
        | .error fault session => .error fault { shell with session }) ∧
    ∀ shell : Shell, shell.pending = "" → Text.strip expr ∉ ["q", "exit", "help", "EOF"] →
      Shell.feed expr shell
        = ((fun _ => true) <$> Shell.guarded (Shell.evaluate (Text.strip expr))) shell.idle := by
  obtain ⟨hfront, hcount⟩ := parens_of_parse h
  refine ⟨not_infix_of_parse h, hfront, hcount, feed_of_parse h, parse_strip_iff.mpr h,
    Shell.guarded_evaluate, ?_⟩
  intro shell hpending hline
  rw [Shell.feed_eq, move_of_parse h hpending hline]
  rfl

/-- Blanks of several kinds stand around a definition of a name that a command has too. -/
theorem read_line_is_complete_spaced :
    parse (NameMap.empty.insert "q" (.lam "x" (.var 0))) "\t q = (\\y. q) (q q)\u3000"
      = .ok (.definition "q" (.app (.lam "y" (.lam "x" (.var 0)))
          (.app (.lam "x" (.var 0)) (.lam "x" (.var 0))))) ∧
    (Script.Grouping.mk [⟨"x", 1⟩] false).feed 3 "\t q = (\\y. q) (q q)\u3000"
      = ("q = (\\y. q) (q q)", ⟨[⟨"q = (\\y. q) (q q)", 3⟩, ⟨"x", 1⟩], false⟩) ∧
    Shell.feed "\t q = (\\y. q) (q q)\u3000"
        (.new (Session.new (.new .terminal false) Session.typedIn true none))
      = ((fun _ => true) <$> Shell.guarded (Shell.evaluate "q = (\\y. q) (q q)"))
          (Shell.idle (.new (Session.new (.new .terminal false) Session.typedIn true none))) := by
  have hread : parse (NameMap.empty.insert "q" (.lam "x" (.var 0)))
      "\t q = (\\y. q) (q q)\u3000"
      = .ok (.definition "q" (.app (.lam "y" (.lam "x" (.var 0)))
          (.app (.lam "x" (.var 0)) (.lam "x" (.var 0))))) := by
    decide +kernel
  have hstrip : Text.strip "\t q = (\\y. q) (q q)\u3000" = "q = (\\y. q) (q q)" := by
    decide +kernel
  obtain ⟨-, -, -, hfeed, -, -, hshell⟩ := read_line_is_complete hread
  rw [hstrip] at hfeed hshell
  exact ⟨hread, hfeed [⟨"x", 1⟩] 3, hshell _ rfl (by decide)⟩

end CallByValue
