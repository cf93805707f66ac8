import CallByValue.Proofs.Session.Answer
/-!
# The course of a script

What the expressions of a script come to, one after another: each is evaluated with the definitions
of those before it, and the first that fails ends the course. No session and no reporter is needed
to say this, and neither to say what is printed: for every expression that was answered a warning if
it redefines a name, and its text; and for one that failed where it stands and what is wrong with
it. What stands behind an expression that fails makes no difference.
-/

namespace CallByValue

/-- The name that the query redefines, if it does. -/
def Query.redefined (definitions : Definitions) : Query → Option String
  | .term _ => none
  | .definition name _ => if definitions.contains name then some name else none

namespace Script

/-! ### The course of a script -/

/-- What an expression comes to under the given definitions: a query with its value, and the text of
it. -/
def answer (limit : Option Int) (definitions : Definitions) (expr : String) :
    Except Fault (Query × String) := do
  let query ← ((Reducer.tracing limit none false).run definitions expr).result
  let text ← query.renderBounded
  return (query, text)

/-- An expression with what it came to. -/
structure Answered where
  entry : Entry
  query : Query
  text : String
  /-- The name that was defined already, if it was. -/
  redefined : Option String
deriving DecidableEq

structure Course where
  /-- The expressions up to the first that failed. -/
  answered : List Answered
  failed : Option (Entry × Fault)
deriving DecidableEq

/-- The course with one more answer in front. -/
def Course.cons (first : Answered) (later : Course) : Course :=
  ⟨first :: later.answered, later.failed⟩

def course (limit : Option Int) : Definitions → List Entry → Course
  | _, [] => ⟨[], none⟩
  | definitions, entry :: entries =>
    match answer limit definitions entry.text with
    | .error fault => ⟨[], some (entry, fault)⟩
    | .ok (query, text) =>
      .cons ⟨entry, query, text, query.redefined definitions⟩
        (course limit (query.storedIn definitions) entries)

/-- The course of a file, with nothing defined at first. -/
def courseOf (limit : Option Int) (contents : String) : Course :=
  course limit .empty (entries (Text.lines contents))

/-- The expressions that were answered. -/
def Course.entries (course : Course) : List Entry :=
  course.answered.map Answered.entry

/-- The expressions that were looked at: those that were answered, and the one that failed. -/
def Course.lookedAt (course : Course) : List Entry :=
  course.entries ++ (course.failed.map Prod.fst).toList

variable {limit : Option Int} {definitions : Definitions} {entry : Entry} {entries : List Entry}
  {query : Query} {text : String} {fault : Fault}

theorem course_cons_of_ok (h : answer limit definitions entry.text = .ok (query, text)) :
    course limit definitions (entry :: entries)
      = .cons ⟨entry, query, text, query.redefined definitions⟩
          (course limit (query.storedIn definitions) entries) := by
  rw [course, h]

theorem course_cons_of_error (h : answer limit definitions entry.text = .error fault) :
    course limit definitions (entry :: entries) = ⟨[], some (entry, fault)⟩ := by
  rw [course, h]

theorem entries_course (h : (course limit definitions entries).failed = none) :
    (course limit definitions entries).entries = entries := by
  induction entries generalizing definitions with
  | nil => rfl
  | cons entry entries ih =>
    cases hanswer : answer limit definitions entry.text with
    | error fault =>
      rw [course_cons_of_error hanswer] at h
      cases h
    | ok answer =>
      obtain ⟨query, text⟩ := answer
      rw [course_cons_of_ok hanswer] at h ⊢
      exact congrArg (entry :: ·) (ih h)

/-- The first expression that fails stands behind those that were answered, and what stands behind
it makes no difference. -/
theorem exists_of_failed (h : (course limit definitions entries).failed = some (entry, fault)) :
    (∃ later, entries = (course limit definitions entries).entries ++ entry :: later) ∧
    ∀ later, course limit definitions
        ((course limit definitions entries).entries ++ entry :: later)
      = course limit definitions entries := by
  induction entries generalizing definitions with
  | nil => cases h
  | cons first entries ih =>
    cases hanswer : answer limit definitions first.text with
    | error fault' =>
      rw [course_cons_of_error hanswer] at h ⊢
      cases h
      exact ⟨⟨entries, rfl⟩, fun later => course_cons_of_error hanswer⟩
    | ok answer =>
      obtain ⟨query, text⟩ := answer
      rw [course_cons_of_ok hanswer] at h ⊢
      obtain ⟨⟨later, hentries⟩, hrest⟩ := ih h
      refine ⟨⟨later, congrArg (first :: ·) hentries⟩, ?_⟩
      intro later'
      exact (course_cons_of_ok hanswer).trans (congrArg (Course.cons _) (hrest later'))

theorem mem_of_mem_lookedAt {looked : Entry}
    (h : looked ∈ (course limit definitions entries).lookedAt) : looked ∈ entries := by
  cases hfailed : (course limit definitions entries).failed with
  | none =>
    rw [Course.lookedAt, hfailed, entries_course hfailed] at h
    simpa using h
  | some failed =>
    obtain ⟨⟨later, hentries⟩, -⟩ := exists_of_failed hfailed
    rw [Course.lookedAt, hfailed] at h
    rw [hentries]
    simp only [Option.map_some, Option.toList_some, List.mem_append, List.mem_singleton] at h
    exact List.mem_append.mpr (h.imp_right fun heq => List.mem_cons.mpr (.inl heq))

/-! ### What is printed -/

section Printed

variable (style : Text.Style) (path : String)

def warningText (entry : Entry) (name : String) : String :=
  let start := Session.nameStart entry.text name
  let d := Diagnostic.overwrites entry.text name start
  style.bold (path ++ ":" ++ toString entry.number ++ ":" ++ toString (start + 1) ++ ": ") ++
    style.boldIn .magenta "warning: " ++ d.message.styled style ++ "\n" ++
    d.shownText style .magenta

def Answered.warning (line : Answered) : String :=
  match line.redefined with
  | some name => warningText style path line.entry name
  | none => ""

def Answered.printed (line : Answered) : String :=
  line.warning style path ++ line.text ++ "\n"

def reportText (entry : Entry) (d : Diagnostic) : String :=
  "  File '" ++ path ++ "', line " ++ toString entry.number ++ ":\n" ++
    "    " ++ entry.text ++ "\n" ++
    d.errorText style

namespace Course

def printed (course : Course) : String :=
  String.join (course.answered.map (Answered.printed style path)) ++
    match course.failed with
    | some (entry, fault) => reportText style path entry fault.diagnosis
    | none => ""

theorem printed_cons (first : Answered) (later : Course) :
    printed style path (.cons first later)
      = first.printed style path ++ printed style path later := by
  simp [printed, cons, String.append_assoc]

end Course

end Printed

end Script

end CallByValue
