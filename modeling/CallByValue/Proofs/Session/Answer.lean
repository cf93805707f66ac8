import CallByValue.Proofs.Reduction.Safety
import CallByValue.Proofs.Session.Report
/-!
# What a line does to a session

Whether a line fails is settled before anything is stored, by reading, evaluating and writing out:
its `answer` is a query with its text, or a fault. It depends on the definitions, the limit and the
tracing, and on nothing else. A fault leaves the session as it was but for the reporter, which has
registered the line and printed the steps. An answer changes the definitions and the results, and
the line is registered no more. Only a redefinition can still go wrong then, since its warning has to
write the numbers of the lines.

If the work is guarded and no error is fatal, then after a fault no line at all is registered. The
limit and the numbers of the lines have to be such that a report can be written; the session is
`Legible` then.
-/

namespace CallByValue

namespace NameMap

variable {α : Type}

@[simp] theorem insert_insert (map : NameMap α) (name : String) (old value : α) :
    (map.insert name old).insert name value = map.insert name value := by
  obtain ⟨entries⟩ := map
  simp only [insert, mk.injEq]
  induction entries with
  | nil => simp [insertEntry]
  | cons entry rest ih =>
    by_cases hkey : entry.1 = name
    · simp [insertEntry, hkey]
    · simp [insertEntry, hkey, ih]

theorem insert_singleton (name : String) (old value : α) :
    (⟨[(name, old)]⟩ : NameMap α).insert name value = ⟨[(name, value)]⟩ := by
  rw [insert, insertEntry, if_pos rfl]

theorem mem_entries_insert {map : NameMap α} {name : String} {value : α} {entry : String × α}
    (h : entry ∈ (map.insert name value).entries) :
    entry = (name, value) ∨ entry ∈ map.entries := by
  obtain ⟨entries⟩ := map
  dsimp only [insert] at h
  induction entries with
  | nil => exact .inl (List.mem_singleton.mp h)
  | cons first rest ih =>
    rw [insertEntry] at h
    split at h
    · rcases List.mem_cons.mp h with rfl | h
      · exact .inl rfl
      · exact .inr (List.mem_cons_of_mem _ h)
    · rcases List.mem_cons.mp h with rfl | h
      · exact .inr List.mem_cons_self
      · exact (ih h).imp_right (List.mem_cons_of_mem _)

theorem fill_insert {map : NameMap α} {name : String} (h : name ∈ map.names) (value other : α) :
    (map.insert name value).fill other = map.fill other := by
  have hfill (map : NameMap α) : map.fill other = ⟨map.names.map fun name => (name, other)⟩ := by
    simp [fill, names]
  rw [hfill, hfill, names_insert, if_pos h]

end NameMap

theorem Fault.IsExpected.isReportable {limit : Option Int} {fault : Fault}
    (h : fault.IsExpected limit) : fault.IsReportable := by
  cases h with
  | blames h =>
    obtain ⟨d, rfl, hwithin, -⟩ := h.exists_diagnostic
    exact hwithin
  | limit h => exact Diagnostic.nonTermination_within _
  | depth => exact trivial
  | fuel h => exact trivial

namespace Reporter

variable {reporter : Reporter}

theorem Numbered.insert (h : reporter.Numbered) (path : String) {line : SourceLine}
    (hline : ∀ n ∈ line.number, Text.Writable n) (output : String) :
    { reporter with origins := reporter.origins.insert path line, output }.Numbered := by
  intro active hactive
  obtain ⟨hmem, hne⟩ := mem_activeLines.mp hactive
  rcases NameMap.mem_entries_insert hmem with heq | hmem
  · cases heq
    exact hline
  · exact h active (mem_activeLines.mpr ⟨hmem, hne⟩)

/-- Where no line is registered, there is no number to write. -/
theorem numbered_fill (reporter : Reporter) (output : String) :
    { reporter with origins := reporter.origins.fill .unset, output }.Numbered := by
  intro active hactive
  obtain ⟨hmem, -⟩ := mem_activeLines.mp hactive
  obtain ⟨origin, -, heq⟩ := List.mem_map.mp hmem
  cases congrArg (·.2.text) heq

end Reporter

namespace Reducer

variable {β : Type} (reducer : Reducer β)

/-- A value is its own result. Neither a limit nor a veto is looked at. -/
theorem reduce_of_isValue {t : Term} (h : t.isValue = true) : reducer.reduce t = ⟨.ok t, 0, []⟩ := by
  cases t with
  | lam param body =>
    have hrun : reducer.reduceNext (.lam param body) ⟨0, []⟩ = .ok (.lam param body) ⟨0, []⟩ := by
      refine (bind_eq_of_eq_ok _ rfl).trans ?_
      rw [reduceWithin]
      rfl
    rw [reduce, hrun]
    rfl
  | _ => cases h

theorem evaluate_of_isValue {query : Query} (h : query.body.isValue = true) :
    reducer.evaluate query = ⟨.ok query, 0, []⟩ := by
  rw [evaluate, reduce_of_isValue reducer h]
  cases query <;> rfl

end Reducer

namespace Query

def storedIn (definitions : Definitions) : Query → Definitions
  | .term _ => definitions
  | .definition name body => definitions.insert name body

def overwrites (definitions : Definitions) : Query → Bool
  | .term _ => false
  | .definition name _ => definitions.contains name

end Query

namespace Session

variable {session : Session} {expr : String} {query : Query} {text : String}

/-- What a line comes to: the query with its value, and the text of it. -/
def answer (session : Session) (expr : String) : Except Fault (Query × String) := do
  let query ← (session.evaluate expr).result
  let text ← query.renderBounded
  return (query, text)

theorem answer_eq_ok_iff :
    session.answer expr = .ok (query, text) ↔
      (session.evaluate expr).result = .ok query ∧ query.renderBounded = .ok text := by
  constructor
  · intro h
    obtain ⟨query', hresult, hrest⟩ := exists_of_except_bind_eq_ok h
    obtain ⟨text', htext, ⟨⟩⟩ := exists_of_except_bind_eq_ok hrest
    exact ⟨hresult, htext⟩
  · rintro ⟨hresult, htext⟩
    rw [answer, hresult]
    simp only [bind, Except.bind, htext]
    rfl

theorem answer_eq_error_iff {fault : Fault} :
    session.answer expr = .error fault ↔
      (session.evaluate expr).result = .error fault ∨
      ∃ query, (session.evaluate expr).result = .ok query ∧
        query.renderBounded = .error fault := by
  constructor
  · intro h
    rcases cases_of_bind_eq_error h with hresult | ⟨query, hresult, hrest⟩
    · exact .inl hresult
    · rcases cases_of_bind_eq_error hrest with htext | ⟨text, -, ⟨⟩⟩
      exact .inr ⟨query, hresult, htext⟩
  · rintro (hresult | ⟨query, hresult, htext⟩)
    · rw [answer, hresult]
      rfl
    · rw [answer, hresult]
      simp only [bind, Except.bind, htext]

/-- The session that has stored and kept an answer. -/
def keeping (session : Session) (query : Query) (text output : String) : Session :=
  { session with
    reporter := { session.reporter with
      origins := session.reporter.origins.insert session.path .unset, output }
    definitions := query.storedIn session.definitions
    results := session.results.push text }

def recovered (session : Session) (output : String) : Session :=
  { session with
    reporter := { session.reporter with origins := session.reporter.origins.fill .unset, output } }

/-- The limit and the numbers of the lines that are being worked on can be written. -/
structure Legible (session : Session) : Prop where
  limit : ∀ n ∈ session.limit, Text.Writable n
  lines : session.reporter.Numbered

theorem new_legible (style : Text.Style) (trace : Bool) (path : String) (interactive : Bool)
    {limit : Option Int} (h : ∀ n ∈ limit, Text.Writable n) :
    (new (.new style trace) path interactive limit).Legible :=
  ⟨h, fun _ hline => absurd hline List.not_mem_nil⟩

theorem Legible.keeping (h : session.Legible) (query : Query) (text output : String) :
    (session.keeping query text output).Legible :=
  ⟨h.limit, h.lines.insert session.path (by rintro n ⟨⟩) output⟩

theorem Legible.recovered (h : session.Legible) (output : String) :
    (session.recovered output).Legible :=
  ⟨h.limit, Reporter.numbered_fill session.reporter output⟩

/-! ### A fault -/

theorem printSteps_eq (notes : List String) (reporter : Reporter) :
    ∃ output, printSteps notes reporter = { reporter with output } := by
  induction notes generalizing reporter with
  | nil => exact ⟨reporter.output, rfl⟩
  | cons note notes ih =>
    obtain ⟨output, hrest⟩ := ih (reporter.step stepSymbol note)
    refine ⟨output, hrest.trans ?_⟩
    rw [Reporter.step]
    split <;> rfl

theorem printSteps_of_not_trace {reporter : Reporter} (h : reporter.trace = false)
    (notes : List String) : printSteps notes reporter = reporter := by
  induction notes with
  | nil => rfl
  | cons note notes ih =>
    have hstep : reporter.step stepSymbol note = reporter := by
      rw [Reporter.step, h]
      rfl
    rw [printSteps, List.foldl_cons, hstep]
    exact ih

/-- The session that works on a line: the line is registered and the steps are printed. -/
def working (session : Session) (expr : String) (number : Int) : Session :=
  { session with
    reporter := printSteps (session.evaluate expr).notes
      (session.reporter.registerLine session.path expr number) }

theorem working_eq (session : Session) (expr : String) (number : Int) :
    ∃ output, session.working expr number = { session with
      reporter := { session.reporter with
        origins := session.reporter.origins.insert session.path ⟨some expr, some number⟩
        output } } := by
  obtain ⟨output, hprint⟩ := printSteps_eq (session.evaluate expr).notes
    (session.reporter.registerLine session.path expr number)
  exact ⟨output, by rw [working, hprint]; rfl⟩

theorem Legible.working (h : session.Legible) (expr : String) {number : Int}
    (hnumber : Text.Writable number) : (session.working expr number).Legible := by
  obtain ⟨output, hworking⟩ := working_eq session expr number
  rw [hworking]
  refine ⟨h.limit, h.lines.insert session.path ?_ output⟩
  rintro n ⟨⟩
  exact hnumber

theorem add_of_answer_eq_error {fault : Fault} (h : session.answer expr = .error fault)
    (number : Int) : add expr number session = .error fault (session.working expr number) := by
  refine (bind_eq_of_eq_ok _ rfl).trans ?_
  refine (bind_eq_of_eq_ok _ rfl).trans ((bind_eq_of_eq_ok _ rfl).trans ?_)
  rcases answer_eq_error_iff.mp h with hresult | ⟨query, hresult, htext⟩
  · rw [hresult]
    rfl
  · rw [hresult]
    refine (bind_eq_of_eq_ok _ rfl).trans ?_
    rw [htext]
    rfl

/-! ### An answer -/

/-- Stores a query, as far as there is something to store. -/
def store (expr : String) : Query → Action Unit
  | .term _ => pure ()
  | .definition name body => define expr name body

theorem add_of_answer_eq_ok (h : session.answer expr = .ok (query, text)) (number : Int) :
    add expr number session
      = (store expr query >>= fun _ =>
          modify (fun session => { session with results := session.results.push text }) >>= fun _ =>
            modifyReporter (·.removeLine session.path) >>= fun _ => pure query)
          (session.working expr number) := by
  obtain ⟨hresult, htext⟩ := answer_eq_ok_iff.mp h
  refine (bind_eq_of_eq_ok _ rfl).trans ?_
  refine (bind_eq_of_eq_ok _ rfl).trans ((bind_eq_of_eq_ok _ rfl).trans ?_)
  rw [hresult]
  refine (bind_eq_of_eq_ok _ rfl).trans ?_
  rw [htext]
  refine (bind_eq_of_eq_ok _ rfl).trans ?_
  cases query <;> rfl

/-- The name that is defined stands in the line. -/
def NamedIn (query : Query) (expr : String) : Prop :=
  ∀ name body, query = .definition name body → name.toList <:+: expr.toList

theorem namedIn_of_gives (h : Reducer.Gives expr query) : NamedIn query expr :=
  fun name body hquery => (h.named name body hquery).2

/-- What is printed when a query is stored: the warning that a name is redefined, if it is. -/
def storingText (session : Session) (expr : String) : Query → String
  | .term _ => ""
  | .definition name _ =>
    if session.definitions.contains name then
      session.reporter.warningText (.overwrites expr name (nameStart expr name))
    else ""

theorem storingText_eq_empty (h : query.overwrites session.definitions = false) :
    session.storingText expr query = "" := by
  cases query with
  | term t => rfl
  | definition name body =>
    have hnew : session.definitions.contains name = false := h
    rw [storingText, hnew]
    rfl

/-- Storing a query prints no more than the warning that a name is redefined, and fails only if that
warning cannot be written. -/
theorem store_cases (hnamed : NamedIn query expr) (session : Session) :
    store expr query session = .ok () { session with
        reporter := { session.reporter with
          output := session.reporter.output ++ session.storingText expr query }
        definitions := query.storedIn session.definitions } ∨
      store expr query session = .error (.defect .tooManyDigits) session ∧
        query.overwrites session.definitions = true ∧ ¬ session.reporter.Numbered := by
  cases query with
  | term t =>
    rw [storingText, String.append_empty]
    exact .inl rfl
  | definition name body =>
    have hwithin := Diagnostic.overwrites_within (hnamed name body rfl)
    rw [storingText]
    by_cases hknown : session.definitions.contains name = true
    · rw [if_pos hknown]
      rcases Reporter.warn_cases hwithin session.reporter with hwarn | ⟨hwarn, hlong⟩
      · have hreport : reporting (Reporter.warn (.overwrites expr name (nameStart expr name)))
            session = .ok () { session with reporter := { session.reporter with
              output := session.reporter.output ++
                session.reporter.warningText (.overwrites expr name (nameStart expr name)) } } := by
          simp only [reporting, hwarn]
        refine .inl ((bind_eq_of_eq_ok _ rfl).trans ?_)
        rw [if_pos hknown]
        exact (bind_eq_of_eq_ok _ hreport).trans rfl
      · have hreport : reporting (Reporter.warn (.overwrites expr name (nameStart expr name)))
            session = .error (.defect .tooManyDigits) session := by
          simp only [reporting, hwarn]
        refine .inr ⟨(bind_eq_of_eq_ok _ rfl).trans ?_, hknown, hlong⟩
        rw [if_pos hknown]
        exact bind_eq_of_eq_error _ hreport
    · rw [if_neg hknown, String.append_empty]
      refine .inl ((bind_eq_of_eq_ok _ rfl).trans ?_)
      rw [if_neg hknown]
      rfl

/-- What is printed while a line is added: the steps of its evaluation, and what storing its answer
prints. -/
def addingOutput (session : Session) (expr : String) (number : Int) (query : Query) : String :=
  (session.working expr number).reporter.output ++
    (session.working expr number).storingText expr query

/-- An answer is stored and kept, or else it redefines a name and there is a number that the warning
cannot write. -/
theorem add_cases (h : session.answer expr = .ok (query, text)) (hnamed : NamedIn query expr)
    (number : Int) :
    add expr number session
        = .ok query (session.keeping query text (session.addingOutput expr number query)) ∨
      add expr number session
          = .error (.defect .tooManyDigits) (session.working expr number) ∧
        query.overwrites session.definitions = true ∧
        ¬ (session.working expr number).reporter.Numbered := by
  rw [add_of_answer_eq_ok h]
  rcases store_cases hnamed (session.working expr number) with hstore | ⟨hstore, hknown, hlong⟩
  · obtain ⟨steps, hworking⟩ := working_eq session expr number
    refine .inl ((bind_eq_of_eq_ok _ hstore).trans ?_)
    rw [addingOutput, hworking]
    refine (bind_eq_of_eq_ok _ rfl).trans ((bind_eq_of_eq_ok _ rfl).trans ?_)
    simp only [Reporter.removeLine, Reporter.register, NameMap.insert_insert]
    rfl
  · exact .inr ⟨bind_eq_of_eq_error _ hstore, hknown, hlong⟩

theorem add_eq (h : session.answer expr = .ok (query, text)) (hnamed : NamedIn query expr)
    {number : Int} (hnumbered : query.overwrites session.definitions = true →
      (session.working expr number).reporter.Numbered) :
    add expr number session
      = .ok query (session.keeping query text (session.addingOutput expr number query)) := by
  rcases add_cases h hnamed number with hadd | ⟨-, hknown, hlong⟩
  · exact hadd
  · exact absurd (hnumbered hknown) hlong

theorem add_eq_of_new (h : session.answer expr = .ok (query, text)) (hnamed : NamedIn query expr)
    (hnew : query.overwrites session.definitions = false) (number : Int) :
    add expr number session = .ok query
      (session.keeping query text (session.working expr number).reporter.output) := by
  have hstoring : (session.working expr number).storingText expr query = "" :=
    storingText_eq_empty hnew
  rw [add_eq h hnamed (by rw [hnew]; rintro ⟨⟩), addingOutput, hstoring, String.append_empty]

/-! ### A file -/

theorem load_eq (session : Session) (hpath : session.path ≠ typedIn)
    (hzero : '\x00' ∉ session.path.toList) (contents : String) :
    load false (some contents) session
      = addAll (Script.entries (Text.lines contents)) session := by
  have hzero' : ¬ session.path.toList.contains '\x00' = true := by
    rw [List.contains_iff_mem]
    exact hzero
  refine (bind_eq_of_eq_ok _ rfl).trans ?_
  rw [if_neg hpath, if_neg hzero']

/-! ### Guarded work -/

theorem guarded_of_ok {α : Type} {work : Action α} {a : α} {next : Session}
    (h : work session = .ok a next) : guarded work session = .ok (some a) next := by
  rw [guarded, h]

theorem guarded_of_error {α : Type} {work : Action α} {fault : Fault} {next : Session}
    (h : work session = .error fault next) :
    guarded work session = match Reporter.absorb fault next.reporter with
      | .ok _ reporter => .ok none { next with reporter }
      | .error fault reporter => .error fault { next with reporter } := by
  simp only [guarded, h, SeqRight.seqRight, EStateM.seqRight, reporting]
  cases Reporter.absorb fault next.reporter <;> rfl

theorem exists_guarded_of_error {α : Type} {work : Action α} {fault : Fault} {next : Session}
    (h : work session = .error fault next) (hfault : fault.IsReportable)
    (hnumbered : next.reporter.Numbered) (hfatal : next.reporter.fatal = false) :
    ∃ output, guarded work session = .ok none (next.recovered output) := by
  obtain ⟨output, habsorb⟩ := Reporter.exists_absorb hfault hnumbered hfatal
  refine ⟨output, ?_⟩
  rw [guarded_of_error h, habsorb]
  rfl

/-- A line that fails where no error is fatal, whatever was to be done after it. The session's file
is registered, so forgetting the line undoes its registration. -/
theorem exists_guarded_add_of_error {fault : Fault} (h : session.answer expr = .error fault)
    (hfault : fault.IsReportable) (hfatal : session.reporter.fatal = false)
    (hregistered : session.path ∈ session.reporter.origins.names) {number : Int}
    (hnumbered : (session.working expr number).reporter.Numbered) {α : Type}
    (next : Query → Action α) :
    ∃ output, guarded (add expr number >>= next) session = .ok none (session.recovered output) := by
  obtain ⟨steps, hworking⟩ := working_eq session expr number
  have hadd := bind_eq_of_eq_error next (add_of_answer_eq_error h number)
  rw [hworking] at hadd hnumbered
  obtain ⟨output, hguarded⟩ := exists_guarded_of_error hadd hfault hnumbered hfatal
  refine ⟨output, hguarded.trans ?_⟩
  simp only [recovered, NameMap.fill_insert hregistered]

end Session

end CallByValue
