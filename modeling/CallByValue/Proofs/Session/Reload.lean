import CallByValue.Proofs.Printer.Line
import CallByValue.Proofs.Session.Towers
import CallByValue.Text.Terminal
import Mathlib.Data.List.Forall2
/-!
# Definitions can be written down and loaded again

Every definition of a session is a closed value. If its line fits the stack of the reader, then it
reads back as the same definition up to binder names, needs no contraction and is printed as the same
line again. What is needed of such a line is gathered in `Restores`. A file of them, with names that
are all new, is worked through line by line: each is a whole expression, adds its definition behind
the others without a warning, and is printed.

A definition that was put together from others can be deeper than any line that can be read, though
it can be written. Loading stops at its line, and two short lines are enough to come to this.
-/

namespace CallByValue

namespace NameMap

variable {α : Type} {map : NameMap α} {name : String}

theorem entries_insert_of_notMem (h : name ∉ map.names) (value : α) :
    (map.insert name value).entries = map.entries ++ [(name, value)] := by
  obtain ⟨entries⟩ := map
  dsimp only [insert]
  induction entries with
  | nil => rfl
  | cons entry rest ih =>
    rw [names, List.map_cons, List.mem_cons, not_or] at h
    rw [insertEntry, if_neg fun heq => h.1 heq.symm, ih h.2, List.cons_append]

theorem contains_eq_false_of_notMem (h : name ∉ map.names) : map.contains name = false := by
  rw [contains, Option.isSome_eq_false_iff, Option.isNone_iff_eq_none]
  cases hfind : map.find? name with
  | none => rfl
  | some value => exact absurd (List.mem_map_of_mem (mem_entries_of_find? hfind)) h

end NameMap

namespace Session

/-! ### One line -/

/-- The definition that is read back: its binders have the names they are shown under. -/
def readBack (definition : String × Term) : String × Term :=
  (definition.1, definition.2.relabelled [])

/-- There are frames enough to read the line of the definition. -/
def Fits (definition : String × Term) : Prop :=
  definition.2.textFrames ≤ Parser.maxFrames

instance (definition : String × Term) : Decidable (Fits definition) :=
  inferInstanceAs (Decidable (_ ≤ _))

/-- In every session the line defines the name as the value, without a contraction, and it is the
text of this definition. -/
structure Restores (line name : String) (value : Term) : Prop where
  named : name.toList <:+: line.toList
  evaluate : ∀ session : Session, session.evaluate line = ⟨.ok (.definition name value), 0, []⟩
  render : (Query.definition name value).renderBounded = .ok line

/-- The line of a definition is an expression of its own. Every session restores the definition from
it, or is out of frames before anything is evaluated. -/
structure LineOf (line : String) (definition : String × Term) : Prop where
  whole : Script.IsWhole line
  oneLine : Text.OneLine line
  restores : Fits definition → Restores line (readBack definition).1 (readBack definition).2
  refused : ¬ Fits definition → ∀ session : Session,
    session.evaluate line = ⟨.error .depthExceeded, 0, []⟩

theorem restores_of_parseBounded {name text : String} {t : Term} (hshowable : t.Showable [])
    (hvalue : t.isValue = true) (hdepth : t.depth ≤ Term.maxDepth) (hrender : t.render [] = .ok text)
    (hread : ∀ definitions, parseBounded definitions (name ++ " = " ++ text)
      = .ok (.definition name (t.relabelled []))) :
    Restores (name ++ " = " ++ text) name (t.relabelled []) := by
  refine ⟨?_, ?_, ?_⟩
  · rw [String.toList_append, String.toList_append, List.append_assoc]
    exact (List.prefix_append _ _).isInfix
  · intro session
    rw [Session.evaluate, Reducer.run, hread]
    exact Reducer.evaluate_of_isValue _ ((Term.isValue_relabelled t []).trans hvalue)
  · have hshallow : ¬ Term.maxDepth < (t.relabelled []).depth := by
      rw [Term.depth_relabelled]
      exact Nat.not_lt_of_le hdepth
    rw [Query.renderBounded, Query.body, if_neg hshallow, Query.render,
      Term.render_relabelled hshowable, hrender]
    rfl

theorem exists_lineOf {name : String} {t : Term} (hname : Token.isWord name = true)
    (ht : t.Presentable) (hvalue : t.isValue = true) (hdepth : t.depth ≤ Term.maxDepth) :
    ∃ line, (Query.definition name t).render = .ok line ∧ LineOf line (name, t) := by
  have hshowable := Term.Showable.of_isClosed ht.params (Term.isClosed_iff.mpr ht.closed)
  obtain ⟨text, hrender, hwrites⟩ := Term.render_writes_frames hshowable
  obtain ⟨bare, hbare, -⟩ := Term.bareText_writes hshowable
  have hparenthesized : text = Term.parenthesized bare := by
    simp only [Term.render, hbare, hvalue, bind, Except.bind] at hrender
    cases hrender
    rfl
  have hread (definitions : Definitions) := parseBounded_definition hname hwrites
    (Term.elaborate_shown_eq definitions hshowable)
  obtain ⟨hwhole, honeLine⟩ :=
    Script.isWhole_definition hname (Term.bareText_printed hshowable hbare)
  rw [← hparenthesized] at hwhole honeLine
  refine ⟨name ++ " = " ++ text, ?_, hwhole, honeLine, ?_, ?_⟩
  · rw [Query.render, hrender]
    rfl
  · intro (hfits : t.textFrames ≤ Parser.maxFrames)
    exact restores_of_parseBounded hshowable hvalue hdepth hrender fun definitions =>
      (hread definitions).trans (if_pos hfits)
  · intro (hlong : ¬ t.textFrames ≤ Parser.maxFrames) session
    rw [Session.evaluate, Reducer.run, hread, if_neg hlong]

variable {session : Session} {line name : String} {value : Term}

theorem Restores.add_eq (h : Restores line name value) (hnew : name ∉ session.definitions.names)
    (number : Int) :
    add line number session
      = .ok (.definition name value)
          (session.keeping (.definition name value) line session.reporter.output) := by
  have hanswer : session.answer line = .ok (.definition name value, line) := by
    rw [answer_eq_ok_iff, h.evaluate]
    exact ⟨rfl, h.render⟩
  have hnamed : NamedIn (.definition name value) line := by
    rintro _ _ ⟨⟩
    exact h.named
  rw [add_eq_of_new hanswer hnamed (NameMap.contains_eq_false_of_notMem hnew) number, working,
    h.evaluate]
  rfl

/-! ### A file -/

def written (lines : List String) : String :=
  String.join (lines.map (· ++ "\n"))

theorem written_cons (line : String) (lines : List String) :
    written (line :: lines) = line ++ "\n" ++ written lines := by
  simp [written]

theorem exists_addAll_of_restores {entries : List Script.Entry} {definitions : List (String × Term)}
    (h : List.Forall₂ (fun entry definition => Restores entry.text definition.1 definition.2)
      entries definitions)
    (hnew : (session.definitions.names ++ definitions.map Prod.fst).Nodup) :
    ∃ last, (∀ rest, addAll (entries ++ rest) session = addAll rest last) ∧
      last.definitions.entries = session.definitions.entries ++ definitions ∧
      last.reporter.output
        = session.reporter.output ++ written (entries.map Script.Entry.text) := by
  induction h generalizing session with
  | nil => exact ⟨session, fun _ => rfl, by simp, by simp [written]⟩
  | @cons entry definition entries definitions hline _ ih =>
    have hnotMem : definition.1 ∉ session.definitions.names := by
      intro hmem
      exact (List.nodup_append.mp hnew).2.2 _ hmem _ List.mem_cons_self rfl
    have hadd := hline.add_eq hnotMem entry.number
    -- the session that has kept the line and printed it
    let kept := session.keeping (.definition definition.1 definition.2) entry.text
      session.reporter.output
    let printed : Session := { kept with reporter := kept.reporter.print entry.text }
    have hentries : printed.definitions.entries = session.definitions.entries ++ [definition] :=
      NameMap.entries_insert_of_notMem hnotMem definition.2
    have hnames : (printed.definitions.names ++ definitions.map Prod.fst).Nodup := by
      have hprinted : printed.definitions.names = session.definitions.names ++ [definition.1] := by
        rw [NameMap.names, hentries, List.map_append]
        rfl
      rw [hprinted, List.append_assoc]
      exact hnew
    obtain ⟨last, hrun, hdefinitions, houtput⟩ := ih hnames
    refine ⟨last, ?_, ?_, ?_⟩
    · intro rest
      have hback : kept.results.back? = some entry.text := by simp [kept, keeping]
      refine (bind_eq_of_eq_ok _ hadd).trans ((bind_eq_of_eq_ok _ rfl).trans ?_)
      rw [hback]
      exact (bind_eq_of_eq_ok _ rfl).trans (hrun rest)
    · rw [hdefinitions, hentries, List.append_assoc]
      rfl
    · rw [houtput, List.map_cons, written_cons]
      simp [printed, kept, keeping, Reporter.print, String.append_assoc]

theorem exists_lineOf_of_mem {lines : List String} {definitions : List (String × Term)}
    (h : List.Forall₂ LineOf lines definitions) {line : String} (hmem : line ∈ lines) :
    ∃ definition, LineOf line definition := by
  induction h with
  | nil => cases hmem
  | cons hfirst _ ih =>
    rcases List.mem_cons.mp hmem with rfl | hmem
    · exact ⟨_, hfirst⟩
    · exact ih hmem

theorem lines_written {lines : List String} {definitions : List (String × Term)}
    (h : List.Forall₂ LineOf lines definitions) : Text.lines (written lines) = lines := by
  apply Text.lines_join
  intro line hmem
  obtain ⟨definition, hline⟩ := exists_lineOf_of_mem h hmem
  exact hline.oneLine

/-- The lines of definitions that fit, no two of the same name, are worked through, and then there
are the lines behind them. -/
theorem exists_load_of_lineOf {lines : List String} {front back : List (String × Term)}
    (h : List.Forall₂ LineOf lines (front ++ back)) (hfits : ∀ definition ∈ front, Fits definition)
    (hnames : ((front ++ back).map Prod.fst).Nodup) {path : String} (hpath : path ≠ typedIn)
    (hzero : '\x00' ∉ path.toList) (reporter : Reporter) (limit : Option Int) :
    ∃ rest last,
      (∀ contents, Text.lines contents = lines →
        load false (some contents) (new reporter path false limit) = addAll rest last) ∧
      List.Forall₂ (fun entry definition => LineOf entry.text definition) rest back ∧
      last.definitions.entries = front.map readBack ∧
      last.reporter.output = reporter.output ++ written (lines.take front.length) := by
  have htexts : (Script.entries lines).map Script.Entry.text = lines := by
    apply Script.entries_of_isWhole
    intro line hmem
    obtain ⟨definition, hline⟩ := exists_lineOf_of_mem h hmem
    exact hline.whole
  rw [← htexts, List.forall₂_map_left_iff] at h
  generalize hentries : Script.entries lines = entries at h htexts
  have hfront := List.forall₂_take_append entries front back h
  have hback := List.forall₂_drop_append entries front back h
  have hrestores : List.Forall₂
      (fun entry definition => Restores entry.text definition.1 definition.2)
      (entries.take front.length) (front.map readBack) := by
    have hboth := ((List.forall₂_and_left _ _).mpr ⟨hfits, hfront.flip⟩).flip
    exact List.forall₂_map_right_iff.mpr (hboth.imp fun _ _ hline => hline.2.restores hline.1)
  have hnew : ((new reporter path false limit).definitions.names
      ++ (front.map readBack).map Prod.fst).Nodup := by
    rw [List.map_map]
    rw [List.map_append] at hnames
    exact (List.nodup_append.mp hnames).1
  obtain ⟨last, hrun, hdefinitions, houtput⟩ := exists_addAll_of_restores hrestores hnew
  refine ⟨entries.drop front.length, last, ?_, hback, hdefinitions, ?_⟩
  · intro contents hcontents
    rw [load_eq (new reporter path false limit) hpath hzero, hcontents, hentries,
      ← hrun (entries.drop front.length), List.take_append_drop]
  · rw [houtput, List.map_take, htexts]
    rfl

/-! ### All definitions of a session -/

/-- The definitions of a session are written down, each as a line of its own. -/
theorem Orderly.exists_lines (h : session.Orderly) :
    ∃ lines,
      session.definitions.entries.mapM (fun entry => (Query.definition entry.1 entry.2).render)
        = .ok lines ∧
      List.Forall₂ LineOf lines session.definitions.entries := by
  have hentry (entry : String × Term) (hmem : entry ∈ session.definitions.entries) :
      ∃ line, (Query.definition entry.1 entry.2).render = .ok line ∧ LineOf line entry := by
    obtain ⟨hname, hbody, hvalue⟩ := h.entries entry hmem
    exact exists_lineOf hname hbody hvalue (h.depth_le entry hmem)
  generalize session.definitions.entries = entries at hentry
  induction entries with
  | nil => exact ⟨[], rfl, .nil⟩
  | cons entry entries ih =>
    obtain ⟨line, hline, hlineOf⟩ := hentry entry List.mem_cons_self
    obtain ⟨lines, hlines, hall⟩ := ih fun other hother =>
      hentry other (List.mem_cons_of_mem _ hother)
    refine ⟨line :: lines, ?_, .cons hlineOf hall⟩
    rw [List.mapM_cons, hline, hlines]
    rfl

theorem forall₂_readBack (definitions : List (String × Term)) :
    List.Forall₂ (fun entry loaded => loaded.1 = entry.1 ∧ loaded.2.AlphaEq entry.2)
      definitions (definitions.map readBack) := by
  rw [List.forall₂_map_right_iff, List.forall₂_same]
  intro entry _
  exact ⟨rfl, Term.relabelled_alphaEq entry.2 []⟩

section Loading

variable (h : session.Orderly) {lines : List String}
  (hlines : List.Forall₂ LineOf lines session.definitions.entries) {path : String}
  (hpath : path ≠ typedIn) (hzero : '\x00' ∉ path.toList) (reporter : Reporter)
  (limit : Option Int)

include h hlines hpath hzero

theorem Orderly.exists_load (hfits : ∀ entry ∈ session.definitions.entries, Fits entry) :
    ∃ loaded,
      (∀ contents, Text.lines contents = lines →
        load false (some contents) (new reporter path false limit) = .ok () loaded) ∧
      loaded.definitions.entries = session.definitions.entries.map readBack ∧
      loaded.reporter.output = reporter.output ++ written lines := by
  rw [← List.append_nil session.definitions.entries] at hlines
  have hnodup : ((session.definitions.entries ++ []).map Prod.fst).Nodup := by
    rw [List.append_nil]
    exact h.nodup
  obtain ⟨rest, last, hload, hrest, hdefinitions, houtput⟩ :=
    exists_load_of_lineOf hlines hfits hnodup hpath hzero reporter limit
  cases hrest
  have hlength : session.definitions.entries.length = lines.length := by
    rw [hlines.length_eq, List.append_nil]
  rw [hlength, List.take_length] at houtput
  exact ⟨last, hload, hdefinitions, houtput⟩

theorem Orderly.exists_load_of_not_fits {front back : List (String × Term)} {entry : String × Term}
    (hsplit : session.definitions.entries = front ++ entry :: back)
    (hfront : ∀ definition ∈ front, Fits definition) (hentry : ¬ Fits entry) :
    ∃ stopped,
      (∀ contents, Text.lines contents = lines →
        load false (some contents) (new reporter path false limit)
          = .error .depthExceeded stopped) ∧
      stopped.definitions.entries = front.map readBack ∧
      stopped.reporter.output = reporter.output ++ written (lines.take front.length) := by
  have hnodup := h.nodup
  rw [NameMap.names] at hnodup
  rw [hsplit] at hlines hnodup
  obtain ⟨rest, last, hload, hrest, hdefinitions, houtput⟩ :=
    exists_load_of_lineOf hlines hfront hnodup hpath hzero reporter limit
  cases hrest with
  | @cons first _ later _ hfirst hlater =>
    have hrefused := hfirst.refused hentry
    have hanswer : last.answer first.text = .error .depthExceeded := by
      rw [answer, hrefused]
      rfl
    have hadd := add_of_answer_eq_error hanswer first.number
    refine ⟨last.working first.text first.number, ?_, hdefinitions, ?_⟩
    · intro contents hcontents
      rw [hload contents hcontents]
      exact bind_eq_of_eq_error _ hadd
    · rw [Session.working, hrefused]
      exact houtput

end Loading

/-- **The definitions of a session can be written down and loaded again, as far as their lines can be
read.** Each has a text, and a file whose lines are these texts in order is worked through by a
session for that file, whatever its limit is; no line takes a contraction. If every line fits the
stack of the reader, then the file is loaded without an error, what is printed are the same lines and
nothing else, and the session ends with the same names in the same order, for values that differ in
binder names at most. Otherwise loading stops at the first line that does not fit, for no other reason
than that, and the same holds of the lines and definitions before it. -/
theorem definitions_reload {session : Session} (h : Interactive session) (path : String)
    (hpath : path ≠ typedIn) (hzero : '\x00' ∉ path.toList) (reporter : Reporter)
    (limit : Option Int) :
    ∃ lines,
      session.definitions.entries.mapM (fun entry => (Query.definition entry.1 entry.2).render)
        = .ok lines ∧
      Text.lines (written lines) = lines ∧
      (∀ line ∈ lines, ∀ other : Session, (other.evaluate line).steps = 0) ∧
      ((∀ entry ∈ session.definitions.entries, Fits entry) →
        ∃ loaded,
          (∀ contents, Text.lines contents = lines →
            load false (some contents) (new reporter path false limit) = .ok () loaded) ∧
          loaded.reporter.output = reporter.output ++ written lines ∧
          List.Forall₂ (fun entry loadedEntry =>
              loadedEntry.1 = entry.1 ∧ loadedEntry.2.AlphaEq entry.2)
            session.definitions.entries loaded.definitions.entries) ∧
      ∀ front entry back, session.definitions.entries = front ++ entry :: back →
        (∀ definition ∈ front, Fits definition) → ¬ Fits entry →
        ∃ stopped,
          (∀ contents, Text.lines contents = lines →
            load false (some contents) (new reporter path false limit)
              = .error .depthExceeded stopped) ∧
          stopped.reporter.output = reporter.output ++ written (lines.take front.length) ∧
          List.Forall₂ (fun entry loadedEntry =>
              loadedEntry.1 = entry.1 ∧ loadedEntry.2.AlphaEq entry.2)
            front stopped.definitions.entries := by
  have horderly := h.orderly
  obtain ⟨lines, hrender, hlines⟩ := horderly.exists_lines
  refine ⟨lines, hrender, lines_written hlines, ?_, ?_, ?_⟩
  · intro line hmem other
    obtain ⟨definition, hline⟩ := exists_lineOf_of_mem hlines hmem
    by_cases hfits : Fits definition
    · rw [(hline.restores hfits).evaluate]
    · rw [hline.refused hfits]
  · intro hfits
    obtain ⟨loaded, hload, hdefinitions, houtput⟩ :=
      horderly.exists_load hlines hpath hzero reporter limit hfits
    exact ⟨loaded, hload, houtput, hdefinitions ▸ forall₂_readBack _⟩
  · intro front entry back hsplit hfront hentry
    obtain ⟨stopped, hload, hdefinitions, houtput⟩ :=
      horderly.exists_load_of_not_fits hlines hpath hzero reporter limit hsplit hfront hentry
    exact ⟨stopped, hload, houtput, hdefinitions ▸ forall₂_readBack _⟩

/-- A name that is defined anew keeps its place, and is not warned about when it is loaded. -/
theorem definitions_reload_redefined :
    ∃ loaded,
      load false (some "id = (\\x. \\y. x)\nk = (\\x. \\y. x)")
          (new (.new .terminal true) "saved" false (some 0)) = .ok () loaded ∧
      loaded.reporter.output = "id = (\\x. \\y. x)\nk = (\\x. \\y. x)\n" ∧
      loaded.definitions.names = ["id", "k"] := by
  obtain ⟨session, hsession, hentries⟩ : ∃ session, Interactive session ∧
      session.definitions.entries
        = [("id", .lam "x" (.lam "y" (.var 1))), ("k", .lam "x" (.lam "y" (.var 1)))] :=
    ⟨_, .add (.guarded (.add (.typedIn (.new .terminal false) none) "id = \\x. x" 1)
      "k = (\\z. z) (\\x. \\y. x)" 2) "id = k" 3, by decide +kernel⟩
  obtain ⟨lines, hlines, -, -, hfit, -⟩ :=
    definitions_reload hsession "saved" (by decide) (by decide) (.new .terminal true) (some 0)
  rw [hentries] at hlines hfit
  obtain ⟨loaded, hload, houtput, hsame⟩ := hfit (by decide)
  have htexts : (match [("id", Term.lam "x" (.lam "y" (.var 1))),
        ("k", .lam "x" (.lam "y" (.var 1)))].mapM
        (fun entry => (Query.definition entry.1 entry.2).render) with
      | .ok lines => lines
      | .error _ => []) = ["id = (\\x. \\y. x)", "k = (\\x. \\y. x)"] := by
    decide +kernel
  rw [hlines] at htexts
  dsimp only at htexts
  subst htexts
  refine ⟨loaded, hload _ (by decide +kernel), houtput.trans (by decide +kernel), ?_⟩
  rw [NameMap.names]
  generalize loaded.definitions.entries = loadedEntries at hsame
  cases hsame with
  | cons hid hrest =>
    cases hrest with
    | cons hk hnil =>
      cases hnil
      simp [hid.1, hk.1]

/-- Two towers of two hundred parentheses are typed in, the second on top of the first. Both are
defined, but the file with their lines is not loaded. -/
theorem definitions_not_reloaded :
    let session := after (add (towerLine "b" "a" 200) 2)
      (after (add (towerLine "a" "x" 200) 1) (new (.new .terminal false) typedIn true none))
    Interactive session ∧
    ∃ lines stopped,
      session.definitions.entries.mapM (fun entry => (Query.definition entry.1 entry.2).render)
        = .ok lines ∧
      load false (some (written lines)) (new (.new .terminal false) "saved" false (some 0))
        = .error .depthExceeded stopped := by
  intro session
  have hfirst : Interactive (after (add (towerLine "a" "x" 200) 1)
      (new (.new .terminal false) typedIn true none)) :=
    .add (.typedIn (.new .terminal false) none) _ 1
  have hsession : Interactive session := .add hfirst _ 2
  let lower : Term := .lam "x" (tower (.var 0) 200)
  let upper : Term := .lam "x" (tower lower 200)
  have hlower : (after (add (towerLine "a" "x" 200) 1)
      (new (.new .terminal false) typedIn true none)).definitions = ⟨[("a", lower)]⟩ :=
    (new_orderly _ _ _).definitions_after_towerLine (by decide) (by decide) rfl rfl (by decide)
      (by decide +kernel) 1
  have hupper : session.definitions = ⟨[("a", lower), ("b", upper)]⟩ := by
    refine (hfirst.orderly.definitions_after_towerLine (by decide) (by decide) ?_ ?_ (by decide)
      (t := lower) (by decide +kernel) 2).trans ?_
    · rw [hlower]
      rfl
    · rw [hlower]
      rfl
    · rw [hlower]
      rfl
  obtain ⟨lines, hrender, hlines⟩ := hsession.orderly.exists_lines
  have hsplit : session.definitions.entries = [("a", lower)] ++ ("b", upper) :: [] := by
    rw [hupper]
    rfl
  obtain ⟨stopped, hload, -⟩ := hsession.orderly.exists_load_of_not_fits hlines
    (show "saved" ≠ typedIn by decide) (by decide) (.new .terminal false) (some 0) hsplit
    (by decide +kernel) (by decide +kernel)
  exact ⟨hsession, lines, stopped, hrender, hload _ (lines_written hlines)⟩

end Session

end CallByValue
