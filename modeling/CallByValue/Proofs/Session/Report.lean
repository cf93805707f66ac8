import CallByValue.Proofs.Ending
import CallByValue.Proofs.Underline
import CallByValue.Proofs.Writable
import CallByValue.Session
import Mathlib.Data.List.Infix
/-!
# Warnings and reports

A warning has to write the number of every line that is being worked on, to write a column and to
draw two rows, and can fail at each. Only the first can go wrong if it blames a part of its
expression, since then neither the column nor the rows go beyond what the expression and the line are
long; and the name that is redefined stands in the line. The report of an error fails for no other
reason either. Where errors are not fatal the work goes on after it, with no line registered and all
else as it was.
-/

namespace CallByValue

namespace Text

theorem position?_le {needle cs : List Char} {i : Nat} (h : position? needle cs = some i) :
    i + needle.length ≤ cs.length := by
  induction cs generalizing i with
  | nil =>
    rw [position?] at h
    split at h
    · next hempty =>
      cases h
      simp [List.isEmpty_iff.mp hempty]
    · cases h
  | cons c cs ih =>
    rw [position?] at h
    split at h
    · next hfront =>
      cases h
      have hstart : needle <+: c :: cs := by simpa using hfront
      rw [Nat.zero_add]
      exact hstart.length_le
    · obtain ⟨j, hj, rfl⟩ := Option.map_eq_some_iff.mp h
      have hle := ih hj
      rw [List.length_cons]
      omega

theorem position?_self (cs : List Char) : position? cs cs = some 0 := by
  cases cs <;> simp [position?]

theorem position?_append {c : Char} {front : List Char} (h : c ∉ front) (rest back : List Char) :
    position? (c :: rest) (front ++ (c :: rest ++ back)) = some front.length := by
  induction front with
  | nil => simp [position?]
  | cons d front ih =>
    rw [List.mem_cons, not_or] at h
    obtain ⟨hne, hfront⟩ := h
    have hnot : ¬ (c :: rest).isPrefixOf (d :: (front ++ (c :: rest ++ back))) = true := by
      rw [List.isPrefixOf_iff_prefix, List.cons_prefix_cons]
      exact fun hstart => hne hstart.1
    rw [List.cons_append, position?, if_neg hnot, ih hfront]
    rfl

theorem exists_position? {needle cs : List Char} (h : needle <:+: cs) :
    ∃ i, position? needle cs = some i := by
  induction cs with
  | nil => exact ⟨0, by rw [List.infix_nil.mp h]; rfl⟩
  | cons c cs ih =>
    rw [position?]
    split
    · exact ⟨0, rfl⟩
    · next hfront =>
      rcases List.infix_cons_iff.mp h with hstart | hrest
      · exact absurd (by simpa using hstart) hfront
      · obtain ⟨i, hi⟩ := ih hrest
        exact ⟨i + 1, by rw [hi]; rfl⟩

end Text

namespace Diagnostic

theorem overwrites_within {expr name : String} (h : name.toList <:+: expr.toList) :
    (overwrites expr name (Session.nameStart expr name)).Within := by
  obtain ⟨i, hi⟩ := Text.exists_position? h
  have hle := Text.position?_le hi
  rw [String.length_toList, String.length_toList] at hle
  have hstart : Session.nameStart expr name = i := by rw [Session.nameStart, hi]
  rw [hstart]
  refine ⟨?_, ?_, ?_, rfl⟩ <;> dsimp only [overwrites] <;> omega

end Diagnostic

def Diagnostic.shownText (d : Diagnostic) (style : Text.Style) (colour : Text.Colour) : String :=
  if d.isShown then
    match d.underlined style colour with
    | .ok text => text ++ "\n"
    | .error _ => ""
  else ""

theorem Diagnostic.Underlines.shownText_eq {d : Diagnostic} {expr : String}
    {front part back : List Char} (h : d.Underlines expr front part back) (hshown : d.isShown = true)
    (style : Text.Style) (colour : Text.Colour) :
    d.shownText style colour = drawing style colour front part back ++ "\n" := by
  rw [shownText, if_pos hshown, h.drawn style colour]

/-- What the report of an error says after where it comes from. -/
def Diagnostic.errorText (d : Diagnostic) (style : Text.Style) : String :=
  (if d.internal then style.boldIn .red "[internal] " else "") ++ style.boldIn .red "error: " ++
    d.message.styled style ++ "\n" ++ d.shownText style .red

/-! ### Lines and their numbers -/

namespace ActiveLine

/-- How the number of a line is shown. -/
def shownNumber (line : ActiveLine) : String :=
  match line.number with
  | some n => toString n
  | none => "None"

/-- The number of the line can be written, if it has one. -/
def Numbered (line : ActiveLine) : Prop :=
  ∀ n ∈ line.number, Text.Writable n

theorem numberText_cases (line : ActiveLine) :
    line.numberText = .ok line.shownNumber ∨
      line.numberText = .error (.defect .tooManyDigits) ∧ ¬ line.Numbered := by
  obtain ⟨path, text, number⟩ := line
  cases number with
  | none => exact .inl rfl
  | some n =>
    by_cases hn : Text.Writable n
    · exact .inl hn.decimal_eq
    · exact .inr ⟨Text.decimal_eq_error hn, fun hnumbered => hn (hnumbered n rfl)⟩

end ActiveLine

namespace Reporter

/-- The numbers of all lines that are being worked on can be written. -/
def Numbered (reporter : Reporter) : Prop :=
  ∀ line ∈ reporter.activeLines, line.Numbered

theorem mem_activeLines {reporter : Reporter} {line : ActiveLine} :
    line ∈ reporter.activeLines ↔
      (line.path, ⟨some line.text, line.number⟩) ∈ reporter.origins.entries ∧ line.text ≠ "" := by
  rw [activeLines, List.mem_filterMap]
  constructor
  · rintro ⟨⟨path, text?, number⟩, hmem, hline⟩
    cases text? with
    | none => cases hline
    | some text =>
      dsimp only at hline
      split at hline
      · cases hline
      · next hempty =>
        cases hline
        exact ⟨hmem, by simpa using hempty⟩
  · rintro ⟨hmem, hne⟩
    have hempty : ¬ line.text.isEmpty = true := by simpa using hne
    exact ⟨_, hmem, by dsimp only; rw [if_neg hempty]⟩

def shownOrigin (line : ActiveLine) : String :=
  "  File '" ++ line.path ++ "', line " ++ line.shownNumber ++ ":\n" ++ "    " ++ line.text ++ "\n"

theorem originText_cases (line : ActiveLine) :
    originText line = .ok (shownOrigin line) ∨
      originText line = .error (.defect .tooManyDigits) ∧ ¬ line.Numbered := by
  rw [originText]
  rcases line.numberText_cases with hnumber | ⟨hnumber, hlong⟩
  · rw [hnumber]
    exact .inl rfl
  · rw [hnumber]
    exact .inr ⟨rfl, hlong⟩

def locationText (reporter : Reporter) : String :=
  match reporter.activeLines.map shownOrigin with
  | [] => ""
  | [origin] => if reporter.fatal then origin else ""
  | origins => "Traceback:\n" ++ String.join origins

theorem location_eq {reporter : Reporter} (h : reporter.Numbered) :
    reporter.location = .ok reporter.locationText := by
  rcases mapM_cases originText_cases reporter.activeLines with hlines | ⟨-, line, hline, hlong⟩
  · rw [location, hlines, locationText]
    simp only [bind, Except.bind]
    cases reporter.activeLines.map shownOrigin with
    | nil => rfl
    | cons origin origins => cases origins <;> rfl
  · exact absurd (h line hline) hlong

def shownPlace (reporter : Reporter) (d : Diagnostic) (line : ActiveLine) : String :=
  reporter.style.bold (line.path ++ ":" ++ line.shownNumber ++ ":" ++ toString (column d line) ++
    ": ")

def warningText (reporter : Reporter) (d : Diagnostic) : String :=
  (reporter.activeLines.map (reporter.shownPlace d)).getLast?.getD "" ++
    reporter.style.boldIn .magenta "warning: " ++ d.message.styled reporter.style ++ "\n" ++
    d.shownText reporter.style .magenta

theorem warningText_ne_empty (reporter : Reporter) (d : Diagnostic) :
    reporter.warningText d ≠ "" := by
  intro h
  have hlength := congrArg String.length h
  have hbreak : "\n".length = 1 := rfl
  simp only [warningText, String.length_append, String.length_empty] at hlength
  omega

def reportText (reporter : Reporter) (d : Diagnostic) : String :=
  reporter.locationText ++ d.errorText reporter.style

section Within

variable {d : Diagnostic} (h : d.Within)

include h

theorem columnText_eq (line : ActiveLine) : columnText d line = .ok (toString (column d line)) := by
  have hnonneg := h.nonneg
  have hstart := h.start_le
  have hcolumn : (column d line).natAbs ≤ line.text.length + d.expr.length + 1 := by
    rw [column]
    have hlength : line.text.toList.length = line.text.length := String.length_toList
    cases hfound : Text.position? d.expr.toList line.text.toList with
    | none =>
      dsimp only
      omega
    | some position =>
      have hle := Text.position?_le hfound
      dsimp only
      omega
  rw [columnText, if_pos hcolumn]

theorem placeIn_cases (reporter : Reporter) (line : ActiveLine) :
    reporter.placeIn d line = .ok (reporter.shownPlace d line) ∨
      reporter.placeIn d line = .error (.defect .tooManyDigits) ∧ ¬ line.Numbered := by
  rw [placeIn, columnText_eq h]
  rcases line.numberText_cases with hnumber | ⟨hnumber, hlong⟩
  · rw [hnumber]
    exact .inl rfl
  · rw [hnumber]
    exact .inr ⟨rfl, hlong⟩

theorem printMessage_eq (front : String) (reporter : Reporter) :
    printMessage front d.message reporter
      = .ok () (reporter.print (front ++ d.message.styled reporter.style)) := by
  refine (bind_eq_of_eq_ok _ rfl).trans ?_
  rw [if_pos h.isWritten]
  rfl

theorem underline_eq (colour : Text.Colour) (reporter : Reporter) :
    underline d colour reporter
      = .ok () { reporter with
          output := reporter.output ++ d.shownText reporter.style colour } := by
  obtain ⟨text, htext⟩ := h.underlined reporter.style colour
  rw [underline, Diagnostic.shownText, htext]
  split
  · refine (bind_eq_of_eq_ok _ rfl).trans ?_
    rw [htext, ← String.append_assoc]
    rfl
  · rw [String.append_empty]
    rfl

/-- A warning that blames a part of its expression is printed, unless a line has a number that is too
long. Then nothing is. -/
theorem warn_cases (reporter : Reporter) :
    warn d reporter
        = .ok () { reporter with output := reporter.output ++ reporter.warningText d } ∨
      warn d reporter = .error (.defect .tooManyDigits) reporter ∧ ¬ reporter.Numbered := by
  change (MonadExcept.ofExcept (reporter.place d) >>= fun place =>
    printMessage (place ++ reporter.style.boldIn .magenta "warning: ") d.message >>= fun _ =>
      underline d .magenta) reporter = _ ∨ (MonadExcept.ofExcept (reporter.place d) >>= fun place =>
    printMessage (place ++ reporter.style.boldIn .magenta "warning: ") d.message >>= fun _ =>
      underline d .magenta) reporter = _ ∧ _
  rcases mapM_cases (placeIn_cases h reporter) reporter.activeLines with hplaces |
    ⟨hplaces, line, hline, hlong⟩
  · refine .inl ?_
    rw [place, hplaces, warningText]
    refine (bind_eq_of_eq_ok _ (printMessage_eq h _ reporter)).trans ?_
    refine (underline_eq h .magenta _).trans ?_
    simp only [print, String.append_assoc]
  · refine .inr ⟨?_, fun hnumbered => hlong (hnumbered line hline)⟩
    rw [place, hplaces]
    rfl

/-- An error that blames a part of its expression is reported. If errors are fatal the program exits
then, and otherwise no line stays registered. -/
theorem report_eq {reporter : Reporter} (hnumbered : reporter.Numbered) :
    report d reporter
      = if reporter.fatal then
          .error (.exit 1) { reporter with output := reporter.output ++ reporter.reportText d }
        else
          .ok () { reporter with
            origins := reporter.origins.fill .unset
            output := reporter.output ++ reporter.reportText d } := by
  have hfront : reporter.errorFront d = .ok (reporter.locationText ++
      (if d.internal then reporter.style.boldIn .red "[internal] " else "") ++
      reporter.style.boldIn .red "error: ") := by
    rw [errorFront, location_eq hnumbered]
    rfl
  refine (bind_eq_of_eq_ok _ rfl).trans ?_
  rw [hfront]
  refine (bind_eq_of_eq_ok _ rfl).trans ?_
  refine (bind_eq_of_eq_ok _ (printMessage_eq h _ reporter)).trans ?_
  refine (bind_eq_of_eq_ok _ (underline_eq h .red _)).trans ((bind_eq_of_eq_ok _ rfl).trans ?_)
  simp only [print, reportText, Diagnostic.errorText, String.append_assoc]
  split <;> rfl

end Within

section OneLine

variable {d : Diagnostic} {reporter : Reporter} {line : ActiveLine}

/-- Where one line is being worked on, a warning about a part of it says where in the line it is. -/
theorem warningText_of_activeLines (hlines : reporter.activeLines = [line])
    (hexpr : line.text = d.expr) :
    reporter.warningText d
      = reporter.style.bold (line.path ++ ":" ++ line.shownNumber ++ ":" ++
          toString (d.start + 1) ++ ": ") ++ reporter.style.boldIn .magenta "warning: " ++
          d.message.styled reporter.style ++ "\n" ++ d.shownText reporter.style .magenta := by
  have hcolumn : column d line = d.start + 1 := by
    rw [column, hexpr, Text.position?_self]
    dsimp only
    omega
  rw [warningText, hlines]
  simp only [List.map_cons, List.map_nil, List.getLast?_singleton, Option.getD_some, shownPlace,
    hcolumn]

theorem reportText_of_activeLines (hlines : reporter.activeLines = [line])
    (hfatal : reporter.fatal = true) :
    reporter.reportText d = shownOrigin line ++ d.errorText reporter.style := by
  rw [reportText, locationText, hlines]
  simp only [List.map_cons, List.map_nil, hfatal, if_true]

end OneLine

/-! ### Whatever is reported -/

/-- The second reporter knows the files of the first, and errors are as fatal to it. -/
structure Follows (reporter next : Reporter) : Prop where
  fatal : next.fatal = reporter.fatal
  names : next.origins.names = reporter.origins.names

theorem Follows.refl (reporter : Reporter) : reporter.Follows reporter :=
  ⟨rfl, rfl⟩

/-- However the work ends, the files stay known. -/
structure KeepsFiles {α : Type} (work : EStateM Fault Reporter α) : Prop where
  ends : ∀ reporter, Ends work reporter (fun _ => Follows reporter) (fun _ => Follows reporter)

theorem KeepsFiles.bind {α β : Type} {work : EStateM Fault Reporter α}
    {next : α → EStateM Fault Reporter β} (h : KeepsFiles work) (hnext : ∀ a, KeepsFiles (next a)) :
    KeepsFiles (work >>= next) := by
  refine ⟨fun reporter => (h.ends reporter).bind ?_⟩
  intro a reporter₁ hfirst
  have hlater (last : Reporter) (hlast : reporter₁.Follows last) : reporter.Follows last :=
    ⟨hlast.fatal.trans hfirst.fatal, hlast.names.trans hfirst.names⟩
  exact (((hnext a).ends reporter₁).imp fun _ => hlater).weaken fun _ => hlater

theorem keepsFiles_get : KeepsFiles get :=
  ⟨fun reporter => .returns rfl (.refl reporter)⟩

theorem keepsFiles_throw {α : Type} (fault : Fault) :
    KeepsFiles (throw fault : EStateM Fault Reporter α) :=
  ⟨fun reporter => .faults rfl (.refl reporter)⟩

theorem keepsFiles_modify {f : Reporter → Reporter}
    (h : ∀ reporter, Follows reporter (f reporter)) : KeepsFiles (modify f) :=
  ⟨fun reporter => .returns rfl (h reporter)⟩

theorem keepsFiles_ofExcept {α : Type} (outcome : Except Fault α) :
    KeepsFiles (MonadExcept.ofExcept outcome) := by
  cases outcome with
  | error fault => exact keepsFiles_throw fault
  | ok a => exact ⟨fun reporter => .returns rfl (.refl reporter)⟩

theorem keepsFiles_report (d : Diagnostic) : KeepsFiles (report d) := by
  have hprint (text : String) : KeepsFiles (modify (·.print text)) :=
    keepsFiles_modify fun _ => ⟨rfl, rfl⟩
  have hmessage (front : String) : KeepsFiles (printMessage front d.message) := by
    refine keepsFiles_get.bind fun reporter => ?_
    split
    · exact hprint _
    · exact keepsFiles_throw _
  have hunderline : KeepsFiles (underline d .red) := by
    rw [underline]
    split
    · exact keepsFiles_get.bind fun _ => (keepsFiles_ofExcept _).bind hprint
    · exact ⟨fun reporter => .returns rfl (.refl reporter)⟩
  refine keepsFiles_get.bind fun reporter => (keepsFiles_ofExcept _).bind fun front => ?_
  refine (hmessage front).bind fun _ => hunderline.bind fun _ => keepsFiles_get.bind ?_
  intro reporter
  split
  · exact keepsFiles_throw _
  · exact keepsFiles_modify fun reporter => ⟨rfl, NameMap.names_fill _ _⟩

theorem keepsFiles_absorb (fault : Fault) : KeepsFiles (absorb fault) := by
  cases fault with
  | diagnostic d => exact keepsFiles_report d
  | interrupted => exact keepsFiles_report _
  | depthExceeded => exact keepsFiles_report _
  | outOfFuel => exact keepsFiles_report _
  | exit code => exact keepsFiles_throw _
  | exitWith arguments => exact keepsFiles_throw _
  | defect cause =>
    unfold absorb
    refine keepsFiles_get.bind fun reporter => ?_
    dsimp only
    cases Diagnostic.ofTemplate reporter.style (Template.escape (defectText cause)) [""]
      { internal := true } with
    | error fault => exact (keepsFiles_throw fault).bind fun _ => keepsFiles_throw _
    | ok d => exact (keepsFiles_report d).bind fun _ => keepsFiles_throw _

end Reporter

/-- A fault that can be reported. An exit or a defect is passed on. -/
def Fault.IsReportable : Fault → Prop
  | .diagnostic d => d.Within
  | .interrupted | .depthExceeded | .outOfFuel => True
  | .exit _ | .exitWith _ | .defect _ => False

/-- What is reported about a fault. -/
def Fault.diagnosis : Fault → Diagnostic
  | .diagnostic d => d
  | .interrupted => .general Reporter.interruptText
  | _ => .general Reporter.depthText

theorem Fault.IsReportable.within {fault : Fault} (h : fault.IsReportable) :
    fault.diagnosis.Within := by
  cases fault with
  | diagnostic d => exact h
  | _ => exact Diagnostic.general_within _

theorem Reporter.absorb_eq {fault : Fault} (h : fault.IsReportable) :
    absorb fault = report fault.diagnosis := by
  cases fault with
  | exit code => exact h.elim
  | exitWith arguments => exact h.elim
  | defect cause => exact h.elim
  | _ => rfl

theorem Reporter.exists_absorb {fault : Fault} (h : fault.IsReportable) {reporter : Reporter}
    (hnumbered : reporter.Numbered) (hfatal : reporter.fatal = false) :
    ∃ output, absorb fault reporter
      = .ok () { reporter with origins := reporter.origins.fill .unset, output } := by
  rw [absorb_eq h, report_eq h.within hnumbered, hfatal]
  exact ⟨_, rfl⟩

end CallByValue
