import CallByValue.Proofs.Session.Answer
import CallByValue.Text.Terminal
/-!
# Defects are reported word for word

What is said about a defect comes from outside and may hold braces, in any number and order. It goes
through a template all the same, so its braces are doubled first: every opening one, and then every
closing one. The reader of templates goes from left to right and takes two equal braces for one.
What it sees of a doubled brace is always both halves together, since nothing that stands before them
leaves half a pair behind, and so each character comes out as it went in.

The report can therefore be made and printed in every style, as long as the numbers of the lines that
are being worked on can be written, and after it the defect is passed on. Only an exit takes its
place, where errors are fatal.
-/

namespace CallByValue

namespace Template

/-! ### Doubled braces -/

/-- Every `brace` written twice. -/
def doubled (brace : Char) (cs : List Char) : List Char :=
  cs.flatMap fun c => if c = brace then [c, c] else [c]

theorem escape_eq_doubled (text : String) :
    escape text = String.ofList (doubled closeBrace (doubled openBrace text.toList)) := by
  have hchar (c : Char) :
      escapeChar c = doubled closeBrace (if c = openBrace then [c, c] else [c]) := by
    by_cases hopen : c = openBrace
    · subst hopen
      rfl
    · by_cases hclose : c = closeBrace
      · subst hclose
        rfl
      · simp [escapeChar, doubled, hopen, hclose]
  rw [escape, doubled, doubled, List.flatMap_assoc]
  exact congrArg (fun f => String.ofList (text.toList.flatMap f)) (funext hchar)

theorem segments_escapeChar (c : Char) (cs : List Char) :
    segments .outside (escapeChar c ++ cs) = .literal c :: segments .outside cs := by
  by_cases hopen : c = openBrace
  · subst hopen
    simp [escapeChar, segments]
  · by_cases hclose : c = closeBrace
    · subst hclose
      simp [escapeChar, segments, openBrace, closeBrace]
    · have hplain : escapeChar c = [c] := by simp [escapeChar, hopen, hclose]
      rw [hplain, List.singleton_append, segments_literal hopen hclose]

/-- An escaped text has no fields, and nothing in it is malformed. -/
theorem segments_escape (cs : List Char) :
    segments .outside (cs.flatMap escapeChar) = cs.map .literal := by
  induction cs with
  | nil => rfl
  | cons c cs ih => rw [List.flatMap_cons, segments_escapeChar, ih, List.map_cons]

/-- Filling undoes escaping, whatever the snippets are. -/
theorem fillRuns_escape (text : String) (snippets : List String) :
    fillRuns (escape text) snippets = .ok (Text.Run.ofChars text.toList) := by
  have hfill : fillSegments snippets (fillWithin snippets 1) .undecided
      (text.toList.map .literal ++ []) = .ok (Text.Run.ofChars text.toList ++ [], .undecided) :=
    fillSegments_literals rfl text.toList
  rw [List.append_nil, List.append_nil] at hfill
  rw [fillRuns, maxNesting, fillWithin, escape, String.toList_ofList, segments_escape, hfill]
  rfl

end Template

/-! ### The report of a defect -/

/-- A message about the program itself, about no particular expression. -/
def Diagnostic.internalError (text : String) : Diagnostic :=
  { Diagnostic.general text with message := .filled text text, internal := true }

theorem Diagnostic.ofTemplate_escape (style : Text.Style) (text : String) :
    ofTemplate style (Template.escape text) [""] { internal := true }
      = .ok (internalError text) := by
  simp only [ofTemplate, Template.fillRuns_escape, Message.ofRuns_ofChars]
  rfl

theorem Diagnostic.internalError_within (text : String) : (internalError text).Within := by
  refine ⟨?_, ?_, ?_, rfl⟩ <;> dsimp only [internalError, general] <;> omega

namespace Reporter

/-- What leaves a piece of work that a defect has ended. -/
def passedOn (reporter : Reporter) (cause : Defect) : Fault :=
  if reporter.fatal then .exit 1 else .defect cause

/-- The reporter after it has said `text` about a defect. It keeps the lines that are being worked on
if the program is to exit. -/
def afterDefect (reporter : Reporter) (text : String) : Reporter :=
  { reporter with
    origins := if reporter.fatal then reporter.origins else reporter.origins.fill .unset
    output := reporter.output ++ (reporter.locationText ++
      reporter.style.boldIn .red "[internal] " ++ reporter.style.boldIn .red "error: " ++ text ++
      "\n") }

theorem reportText_internalError (reporter : Reporter) (text : String) :
    reporter.reportText (.internalError text)
      = reporter.locationText ++ reporter.style.boldIn .red "[internal] " ++
          reporter.style.boldIn .red "error: " ++ text ++ "\n" := by
  have hshown : (Diagnostic.internalError text).shownText reporter.style .red = "" := rfl
  rw [reportText, Diagnostic.errorText, hshown, String.append_empty]
  simp only [String.append_assoc]
  rfl

theorem absorb_defect (cause : Defect) {reporter : Reporter} (h : reporter.Numbered) :
    absorb (.defect cause) reporter
      = .error (reporter.passedOn cause) (reporter.afterDefect (defectText cause)) := by
  have habsorb : absorb (.defect cause)
      = get >>= fun _ =>
          report (.internalError (defectText cause)) >>= fun _ => throw (.defect cause) := by
    unfold absorb
    simp only [Diagnostic.ofTemplate_escape]
  have hreport := report_eq (Diagnostic.internalError_within (defectText cause)) h
  rw [reportText_internalError] at hreport
  rw [habsorb, passedOn, afterDefect]
  refine (bind_eq_of_eq_ok _ rfl).trans ?_
  cases hfatal : reporter.fatal with
  | true =>
    rw [hfatal, if_pos rfl] at hreport
    exact bind_eq_of_eq_error _ hreport
  | false =>
    rw [hfatal, if_neg Bool.false_ne_true] at hreport
    exact bind_eq_of_eq_ok _ hreport

end Reporter

theorem Defect.exists_label_text (label text : String) :
    ∃ cause : Defect, cause.label = label ∧ cause.text = text := by
  refine ⟨.other label [.literal text], rfl, ?_⟩
  rw [Defect.text, Argument.message]
  split <;> rfl

namespace Session

/-- **Defects are reported word for word and never swallowed.** Let a piece of work end in a defect,
with any label and any text. The template made of what is to be said about it, with its opening and
then its closing braces doubled, can be filled, and gives back exactly that, plain and in every style.
It is printed as it is behind the two labels, if the numbers of the lines that are being worked on can
be written. The defect is then passed on, or an exit if errors are fatal, and so it is where the work
of a session is guarded. -/
theorem defects_reported_verbatim :
    (∀ label text : String, ∃ cause : Defect, cause.label = label ∧ cause.text = text) ∧
    ∀ cause : Defect,
      let said := "unknown error: '" ++ cause.label ++ ": " ++ cause.text ++ "'"
      let template := Template.doubled Template.closeBrace
        (Template.doubled Template.openBrace said.toList)
      (∀ style, ∃ d,
        Diagnostic.ofTemplate style (String.ofList template) [""] { internal := true } = .ok d ∧
        d.message = .filled said said ∧ d.internal = true) ∧
      (∀ reporter : Reporter, reporter.Numbered → Reporter.absorb (.defect cause) reporter
        = .error (reporter.passedOn cause) (reporter.afterDefect said)) ∧
      ∀ (α : Type) (work : Action α) (session failed : Session),
        work session = .error (.defect cause) failed → failed.reporter.Numbered →
        guarded work session = .error (failed.reporter.passedOn cause)
          { failed with reporter := failed.reporter.afterDefect said } := by
  refine ⟨Defect.exists_label_text, fun cause => ⟨?_, ?_, ?_⟩⟩
  · intro style
    rw [← Template.escape_eq_doubled]
    exact ⟨_, Diagnostic.ofTemplate_escape style _, rfl, rfl⟩
  · intro reporter hnumbered
    exact Reporter.absorb_defect cause hnumbered
  · intro α work session failed h hnumbered
    rw [guarded_of_error h, Reporter.absorb_defect cause hnumbered]
    rfl

/-- A text that is no template: a closing brace comes first, and what looks like a field is none. -/
theorem defects_reported_verbatim_braces :
    let session := new (.new .terminal false) typedIn true none
    let cause := Defect.other "Odd\x7b" [.text "\x7d\x7b\x7b0\x7d \x7b"]
    let work : Action Unit := throw (.defect cause)
    work session = .error (.defect cause) session ∧ session.reporter.Numbered ∧
    ∃ failed, guarded work session = .error (.defect cause) failed ∧
      failed.reporter.output = Text.Style.terminal.boldIn .red "[internal] " ++
        Text.Style.terminal.boldIn .red "error: " ++
        "unknown error: 'Odd\x7b: \x7d\x7b\x7b0\x7d \x7b'\n" := by
  intro session cause work
  have hfails : work session = .error (.defect cause) session := rfl
  have hnumbered : session.reporter.Numbered :=
    (new_legible .terminal false typedIn true (by rintro n ⟨⟩)).lines
  obtain ⟨-, -, hguarded⟩ := defects_reported_verbatim.2 cause
  refine ⟨hfails, hnumbered, _, hguarded Unit work session session hfails hnumbered, ?_⟩
  decide

end Session

end CallByValue
