import CallByValue.Proofs.Session.Invariant
import Mathlib.Data.List.Nodup
/-!
# Sessions on the command line

Where lines are typed in, errors are reported and the work goes on. Beyond being sound, such a
session is orderly: no error is fatal, the session's file is registered, no name is defined twice,
and everything that is defined could be written out. A line keeps a session orderly whether it is
answered or fails, and so does dealing with the fault; hence every history of lines does. That a line
is answered or its fault reported takes a legible session and a line number that can be written.
-/

namespace CallByValue

namespace NameMap

variable {α : Type} {map : NameMap α} {name : String} {value : α}

theorem nodup_names_insert (h : map.names.Nodup) : (map.insert name value).names.Nodup := by
  rw [names_insert]
  split
  · exact h
  · next hnew =>
    rw [← List.concat_eq_append]
    exact (List.nodup_concat _ _).mpr ⟨hnew, h⟩

theorem mem_names_insert {other : String} (h : other ∈ map.names) :
    other ∈ (map.insert name value).names := by
  rw [names_insert]
  split
  · exact h
  · exact List.mem_append_left _ h

end NameMap

theorem Query.depth_le_of_renderBounded {query : Query} {text : String}
    (h : query.renderBounded = .ok text) : query.body.depth ≤ Term.maxDepth := by
  rw [renderBounded] at h
  split at h
  · cases h
  · next hdeep => exact Nat.le_of_not_lt hdeep

namespace Session

/-- A sound session in which no error is fatal, and in which what is defined is defined once and can
be written out. -/
structure Orderly (session : Session) : Prop extends Sound session where
  fatal : session.reporter.fatal = false
  registered : session.path ∈ session.reporter.origins.names
  nodup : session.definitions.names.Nodup
  depth_le : ∀ entry ∈ session.definitions.entries, entry.2.depth ≤ Term.maxDepth

variable {session : Session} {expr : String}

theorem new_orderly (reporter : Reporter) (path : String) (limit : Option Int) :
    (new reporter path true limit).Orderly where
  toSound := new_sound reporter path true limit
  fatal := Bool.and_false _
  registered := by
    dsimp only [new, Reporter.registerFile, Reporter.register]
    rw [NameMap.names_insert]
    split
    · assumption
    · exact List.mem_append_right _ (List.mem_singleton.mpr rfl)
  nodup := List.nodup_nil
  depth_le := by simp [new, NameMap.empty]

/-! ### One line -/

/-- What the reporter prints and which lines it has registered is of no account, as long as it knows
the session's file. -/
theorem Orderly.reporting (h : session.Orderly) {origins : NameMap SourceLine}
    (horigins : session.path ∈ origins.names) (output : String) (results : Array String) :
    { session with reporter := { session.reporter with origins, output }, results }.Orderly :=
  ⟨⟨h.veto, h.entries⟩, h.fatal, horigins, h.nodup, h.depth_le⟩

theorem Orderly.recovered (h : session.Orderly) (output : String) :
    (session.recovered output).Orderly := by
  refine h.reporting ?_ output session.results
  rw [NameMap.names_fill]
  exact h.registered

theorem Orderly.storedIn (h : session.Orderly) {query : Query} (hgives : Reducer.Gives expr query)
    (hdepth : query.body.depth ≤ Term.maxDepth) :
    { session with definitions := query.storedIn session.definitions }.Orderly := by
  refine ⟨h.toSound.storedIn hgives, h.fatal, h.registered, ?_, ?_⟩
  · cases query with
    | term t => exact h.nodup
    | definition name body => exact NameMap.nodup_names_insert h.nodup
  · cases query with
    | term t => exact h.depth_le
    | definition name body =>
      intro entry hentry
      rcases NameMap.mem_entries_insert hentry with rfl | hentry
      · exact hdepth
      · exact h.depth_le entry hentry

theorem Orderly.keeping (h : session.Orderly) {query : Query} {text : String}
    (hanswer : session.answer expr = .ok (query, text)) (output : String) :
    (session.keeping query text output).Orderly :=
  (h.storedIn (h.gives_of_answer hanswer)
    (Query.depth_le_of_renderBounded (answer_eq_ok_iff.mp hanswer).2)).reporting
      (NameMap.mem_names_insert h.registered) output _

theorem Orderly.working (h : session.Orderly) (expr : String) (number : Int) :
    (session.working expr number).Orderly := by
  obtain ⟨output, hworking⟩ := working_eq session expr number
  rw [hworking]
  exact h.reporting (NameMap.mem_names_insert h.registered) output session.results

theorem Orderly.add_ends (h : session.Orderly) (expr : String) (number : Int) :
    Ends (add expr number) session (fun _ session' => session'.Orderly)
      (fun _ session' => session'.Orderly) := by
  cases hanswer : session.answer expr with
  | error fault =>
    exact .faults (add_of_answer_eq_error hanswer number) (h.working expr number)
  | ok answer =>
    obtain ⟨query, text⟩ := answer
    have hnamed := namedIn_of_gives (h.gives_of_answer hanswer)
    rcases add_cases hanswer hnamed number with hadd | ⟨hadd, -⟩
    · exact .returns hadd (h.keeping hanswer _)
    · exact .faults hadd (h.working expr number)

theorem Orderly.guarded_ends (h : session.Orderly) (expr : String) (number : Int) :
    Ends (guarded (add expr number)) session (fun _ session' => session'.Orderly)
      (fun _ session' => session'.Orderly) := by
  have hends := h.add_ends expr number
  cases hadd : add expr number session with
  | ok query next => exact .returns (guarded_of_ok hadd) (hends.of_ok hadd)
  | error fault next =>
    have hnext := hends.of_error hadd
    have hfollows {reporter : Reporter} (hreporter : next.reporter.Follows reporter) :
        { next with reporter }.Orderly :=
      ⟨⟨hnext.veto, hnext.entries⟩, hreporter.fatal.trans hnext.fatal,
        hreporter.names ▸ hnext.registered, hnext.nodup, hnext.depth_le⟩
    have habsorb := (Reporter.keepsFiles_absorb fault).ends next.reporter
    have hguarded := guarded_of_error hadd
    cases hrun : Reporter.absorb fault next.reporter with
    | ok _ reporter =>
      rw [hrun] at hguarded
      exact .returns hguarded (hfollows (habsorb.of_ok hrun))
    | error fault' reporter =>
      rw [hrun] at hguarded
      exact .faults hguarded (hfollows (habsorb.of_error hrun))

section Legible

variable {number : Int} (h : session.Orderly) (hlegible : session.Legible)
  (hnumber : Text.Writable number)

include h hlegible hnumber

theorem Orderly.exists_add_of_ok {query : Query} {text : String}
    (hanswer : session.answer expr = .ok (query, text)) :
    ∃ output, add expr number session = .ok query (session.keeping query text output) :=
  ⟨_, add_eq hanswer (namedIn_of_gives (h.gives_of_answer hanswer)) fun _ =>
    (hlegible.working expr hnumber).lines⟩

/-- Or else it fails, and a guard reports the fault and forgets the line. -/
theorem Orderly.exists_guarded_bind_of_error {fault : Fault}
    (hanswer : session.answer expr = .error fault) {α : Type} (next : Query → Action α) :
    ∃ output, guarded (add expr number >>= next) session = .ok none (session.recovered output) :=
  exists_guarded_add_of_error hanswer
    ((h.endsLine_of_answer hanswer).isExpected hlegible.limit).isReportable h.fatal h.registered
    (hlegible.working expr hnumber).lines next

theorem Orderly.exists_guarded_of_error {fault : Fault}
    (hanswer : session.answer expr = .error fault) :
    ∃ output, guarded (add expr number) session = .ok none (session.recovered output) := by
  rw [← bind_pure (add expr number)]
  exact h.exists_guarded_bind_of_error hlegible hnumber hanswer pure

end Legible

/-! ### Every history -/

/-- The sessions on the command line that come about from one where lines are typed in, or from one
that has worked through its file, by further lines, guarded or not, by taking results and by changing
the limit and the tracing. -/
inductive Interactive : Session → Prop where
  | typedIn (reporter : Reporter) (limit : Option Int) :
      Interactive (new reporter Session.typedIn true limit)
  | loaded {reporter : Reporter} {path : String} {limit : Option Int} {contents : Option String}
      {session : Session} (h : load true contents (new reporter path true limit) = .ok () session) :
      Interactive session
  | add {session : Session} (h : Interactive session) (expr : String) (number : Int) :
      Interactive (after (add expr number) session)
  | guarded {session : Session} (h : Interactive session) (expr : String) (number : Int) :
      Interactive (after (guarded (Session.add expr number)) session)
  | pop {session : Session} (h : Interactive session) : Interactive (after pop session)
  | limit {session : Session} (h : Interactive session) (limit : Option Int) :
      Interactive { session with limit }
  | trace {session : Session} (h : Interactive session) (trace : Bool) :
      Interactive { session with reporter := { session.reporter with trace } }

theorem Orderly.pop_ends (h : session.Orderly) :
    Ends pop session (fun _ session' => session'.Orderly) (fun _ session' => session'.Orderly) := by
  refine .bind_of_ok rfl ?_
  cases session.results.back? with
  | none => exact .faults rfl h
  | some text => exact .returns rfl (h.reporting h.registered session.reporter.output _)

theorem Orderly.load_ends (h : session.Orderly) (interactive : Bool) (contents : Option String) :
    Ends (load interactive contents) session (fun _ session' => session'.Orderly)
      (fun _ _ => True) := by
  refine Session.load_ends ?_ ?_ interactive contents h
  · intro session h expr number
    exact (h.add_ends expr number).weaken fun _ _ _ => trivial
  · intro session h text
    exact h.reporting h.registered _ session.results

theorem Interactive.orderly (h : Interactive session) : session.Orderly := by
  induction h with
  | typedIn reporter limit => exact new_orderly reporter _ limit
  | loaded h => exact ((new_orderly _ _ _).load_ends _ _).of_ok h
  | add _ expr number ih =>
    exact after_of_ends (ih.add_ends expr number) (fun _ _ hok => hok) fun _ _ hfails => hfails
  | guarded _ expr number ih =>
    exact after_of_ends (ih.guarded_ends expr number) (fun _ _ hok => hok) fun _ _ hfails => hfails
  | pop _ ih => exact after_of_ends ih.pop_ends (fun _ _ hok => hok) fun _ _ hfails => hfails
  | limit _ limit ih =>
    exact ⟨⟨ih.veto, ih.entries⟩, ih.fatal, ih.registered, ih.nodup, ih.depth_le⟩
  | trace _ trace ih =>
    exact ⟨⟨ih.veto, ih.entries⟩, ih.fatal, ih.registered, ih.nodup, ih.depth_le⟩

end Session

end CallByValue
