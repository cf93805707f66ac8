import CallByValue.Proofs.Session.Answer
import CallByValue.Text.Terminal
/-!
# What every session keeps

The definitions of a session are words with presentable values, whatever lines were typed in and
however they ended. A line is read against such definitions, evaluated to a presentable value and
written out before anything is stored, so the definitions stay as they should be; and a line fails
only in one of the expected ways. No defect is ever met but one: a limit or the number of a line may
be too long to be written.
-/

namespace CallByValue

namespace NameMap

variable {α : Type} {map : NameMap α} {name : String} {value : α}

theorem mem_entries_of_find? (h : map.find? name = some value) : (name, value) ∈ map.entries := by
  obtain ⟨entries⟩ := map
  rw [find?] at h
  dsimp only at h ⊢
  induction entries with
  | nil => cases h
  | cons entry rest ih =>
    obtain ⟨key, old⟩ := entry
    rw [List.lookup_cons] at h
    split at h
    · next heq =>
      cases h
      rw [eq_of_beq heq]
      exact List.mem_cons_self
    · exact List.mem_cons_of_mem _ (ih h)

end NameMap

namespace Session

/-- Nothing forbids contractions, and all that is defined are presentable values under words. -/
structure Sound (session : Session) : Prop where
  veto : session.veto = none
  entries : ∀ entry ∈ session.definitions.entries,
    Token.isWord entry.1 = true ∧ entry.2.Presentable ∧ entry.2.isValue = true

variable {session : Session}

theorem Sound.presentable (h : session.Sound) : session.definitions.Presentable :=
  fun _ _ hfind => (h.entries _ (NameMap.mem_entries_of_find? hfind)).2.1

theorem Sound.insert (h : session.Sound) {name : String} (hname : Token.isWord name = true)
    {body : Term} (hbody : body.Presentable) (hvalue : body.isValue = true) :
    { session with definitions := session.definitions.insert name body }.Sound := by
  refine ⟨h.veto, ?_⟩
  intro entry hentry
  rcases NameMap.mem_entries_insert hentry with rfl | hentry
  · exact ⟨hname, hbody, hvalue⟩
  · exact h.entries entry hentry

/-! ### One line -/

theorem Sound.result (h : session.Sound) (expr : String) :
    match (session.evaluate expr).result with
    | .ok query => Reducer.Gives expr query
    | .error fault => fault.EndsLine session.limit := by
  rw [evaluate, h.veto]
  exact Reducer.run_result h.presentable session.limit session.reporter.trace expr

theorem Sound.endsLine_of_answer (h : session.Sound) {expr : String} {fault : Fault}
    (hanswer : session.answer expr = .error fault) : fault.EndsLine session.limit := by
  have hresult := h.result expr
  rcases answer_eq_error_iff.mp hanswer with hfault | ⟨query, hquery, htext⟩
  · rwa [hfault] at hresult
  · rw [hquery] at hresult
    rw [Query.renderBounded_eq_error hresult.presentable htext]
    exact .depth

theorem Sound.gives_of_answer (h : session.Sound) {expr text : String} {query : Query}
    (hanswer : session.answer expr = .ok (query, text)) : Reducer.Gives expr query := by
  have hresult := h.result expr
  rwa [(answer_eq_ok_iff.mp hanswer).1] at hresult

theorem Sound.storedIn (h : session.Sound) {expr : String} {query : Query}
    (hgives : Reducer.Gives expr query) :
    { session with definitions := query.storedIn session.definitions }.Sound := by
  cases query with
  | term t => exact h
  | definition name body =>
    exact h.insert (hgives.named name body rfl).1 hgives.presentable hgives.isValue

theorem add_ends (h : session.Sound) (expr : String) (number : Int) :
    Ends (add expr number) session
      (fun query session' => session'.Sound ∧ Reducer.Gives expr query)
      (fun fault session' => session'.Sound ∧ (fault.IsExpected session.limit ∨
        fault = .defect .tooManyDigits ∧ ¬ (session.Legible ∧ Text.Writable number))) := by
  have hworking : (session.working expr number).Sound := ⟨h.veto, h.entries⟩
  cases hanswer : session.answer expr with
  | error fault =>
    refine .faults (add_of_answer_eq_error hanswer number) ⟨hworking, ?_⟩
    refine (h.endsLine_of_answer hanswer).isExpected_or.imp_right fun hcase => ⟨hcase.1, ?_⟩
    intro hlegible
    obtain ⟨n, hn, hlong⟩ := hcase.2
    exact hlong (hlegible.1.limit n hn)
  | ok answer =>
    obtain ⟨query, text⟩ := answer
    have hgives := h.gives_of_answer hanswer
    rcases add_cases hanswer (namedIn_of_gives hgives) number with hadd | ⟨hadd, -, hlong⟩
    · exact .returns hadd ⟨⟨h.veto, (h.storedIn hgives).entries⟩, hgives⟩
    · refine .faults hadd ⟨hworking, .inr ⟨rfl, ?_⟩⟩
      intro hlegible
      exact hlong (hlegible.1.working expr hlegible.2).lines

/-! ### Every history -/

/-- The session after some work, whether the work came to its end or not. -/
def after {α : Type} (work : Action α) (session : Session) : Session :=
  match work session with
  | .ok _ session' => session'
  | .error _ session' => session'

/-- What a line comes to, whatever becomes of the session. -/
def outcome (session : Session) (expr : String) (number : Int) : Except Fault Query :=
  match add expr number session with
  | .ok query _ => .ok query
  | .error fault _ => .error fault

/-- The sessions that come about from one where lines are typed in, or from one that has worked
through its file, by further lines, by taking results and by changing the limit and the tracing. -/
inductive Reachable : Session → Prop where
  | typedIn (reporter : Reporter) (limit : Option Int) :
      Reachable (new reporter Session.typedIn true limit)
  | loaded {reporter : Reporter} {path : String} {interactive : Bool} {limit : Option Int}
      {contents : Option String} {session : Session}
      (h : load interactive contents (new reporter path interactive limit) = .ok () session) :
      Reachable session
  | add {session : Session} (h : Reachable session) (expr : String) (number : Int) :
      Reachable (after (add expr number) session)
  | pop {session : Session} (h : Reachable session) : Reachable (after pop session)
  | limit {session : Session} (h : Reachable session) (limit : Option Int) :
      Reachable { session with limit }
  | trace {session : Session} (h : Reachable session) (trace : Bool) :
      Reachable { session with reporter := { session.reporter with trace } }

theorem after_of_ends {α : Type} {work : Action α} {P : Session → Prop}
    {ok : α → Session → Prop} {fails : Fault → Session → Prop} (h : Ends work session ok fails)
    (hok : ∀ a session', ok a session' → P session')
    (hfails : ∀ fault session', fails fault session' → P session') : P (after work session) := by
  rw [after]
  cases hrun : work session with
  | ok a session' => exact hok a session' (h.of_ok hrun)
  | error fault session' => exact hfails fault session' (h.of_error hrun)

theorem new_sound (reporter : Reporter) (path : String) (interactive : Bool) (limit : Option Int) :
    (new reporter path interactive limit).Sound :=
  ⟨rfl, by simp [new, NameMap.empty]⟩

section Files

variable {P : Session → Prop}
  (hadd : ∀ session, P session → ∀ expr number,
    Ends (add expr number) session (fun _ session' => P session') (fun _ _ => True))
  (hprint : ∀ session, P session → ∀ text,
    P { session with reporter := session.reporter.print text })

include hadd hprint

/-- What every line keeps is kept by a file of them. -/
theorem addAll_ends (entries : List Script.Entry) (h : P session) :
    Ends (addAll entries) session (fun _ session' => P session') (fun _ _ => True) := by
  induction entries generalizing session with
  | nil => exact .returns rfl h
  | cons entry entries ih =>
    refine .bind (hadd session h entry.text entry.number) ?_
    intro _ session₁ hsession₁
    refine .bind_of_ok rfl ?_
    cases session₁.results.back? with
    | none => exact ih hsession₁
    | some text => exact .bind_of_ok rfl (ih (hprint session₁ hsession₁ text))

theorem load_ends (interactive : Bool) (contents : Option String) (h : P session) :
    Ends (load interactive contents) session (fun _ session' => P session') (fun _ _ => True) := by
  refine .bind_of_ok rfl ?_
  split
  · cases interactive with
    | false => exact .faults rfl trivial
    | true => exact .returns rfl h
  · split
    · exact .faults rfl trivial
    · cases contents with
      | none => exact .faults rfl trivial
      | some text => exact addAll_ends hadd hprint _ h

end Files

theorem load_sound (h : session.Sound) (interactive : Bool) (contents : Option String) :
    Ends (load interactive contents) session (fun _ session' => session'.Sound)
      (fun _ _ => True) := by
  refine load_ends ?_ ?_ interactive contents h
  · intro session h expr number
    exact ((add_ends h expr number).imp fun _ _ hok => hok.1).weaken fun _ _ _ => trivial
  · intro session h text
    exact ⟨h.veto, h.entries⟩

theorem pop_ends (h : session.Sound) :
    Ends pop session (fun _ session' => session'.Sound) (fun _ session' => session'.Sound) := by
  refine .bind_of_ok rfl ?_
  cases session.results.back? with
  | none => exact .faults rfl h
  | some text => exact .returns rfl ⟨h.veto, h.entries⟩

theorem Reachable.sound (h : Reachable session) : session.Sound := by
  induction h with
  | typedIn reporter limit => exact new_sound reporter _ _ limit
  | loaded h => exact (load_sound (new_sound _ _ _ _) _ _).of_ok h
  | add _ expr number ih =>
    exact after_of_ends (add_ends ih expr number) (fun _ _ hok => hok.1) fun _ _ hfails => hfails.1
  | pop _ ih => exact after_of_ends (pop_ends ih) (fun _ _ hok => hok) fun _ _ hfails => hfails
  | limit _ limit ih => exact ⟨ih.veto, ih.entries⟩
  | trace _ trace ih => exact ⟨ih.veto, ih.entries⟩

/-- **A session never holds or meets a defect.** After every history, what is defined are closed
values under words, with words for their binders. And the next line, whatever it is, is evaluated or
fails in one of the expected ways, unless the limit or the number of a line is too long to be written.
If it defines a name, the warning that the name had a definition before comes from its template. -/
theorem reachable_sound {session : Session} (h : Reachable session) :
    (∀ name t, (name, t) ∈ session.definitions.entries →
      Token.isWord name = true ∧ t.isClosed = true ∧ t.isValue = true ∧
        ∀ param ∈ t.params, Token.isWord param = true) ∧
    ∀ expr number,
      (∃ query session', add expr number session = .ok query session' ∧
        ∀ name body, query = .definition name body →
          (Diagnostic.Recipe.overwrites expr name (nameStart expr name)).Makes
            (.overwrites expr name (nameStart expr name))) ∨
      (∃ fault session', add expr number session = .error fault session' ∧
        fault.IsExpected session.limit) ∨
      ∃ session', add expr number session = .error (.defect .tooManyDigits) session' ∧
        ¬ (session.Legible ∧ Text.Writable number) := by
  constructor
  · intro name t hmem
    obtain ⟨hname, hpresentable, hvalue⟩ := h.sound.entries (name, t) hmem
    exact ⟨hname, Term.isClosed_iff.mpr hpresentable.closed, hvalue, hpresentable.params⟩
  · intro expr number
    have hends := add_ends h.sound expr number
    cases hrun : add expr number session with
    | ok query session' =>
      refine .inl ⟨query, session', rfl, ?_⟩
      intro name body hquery
      obtain ⟨-, hpart⟩ := (hends.of_ok hrun).2.named name body hquery
      exact Diagnostic.Recipe.makes_overwrites expr name (Diagnostic.overwrites_within hpart).nonneg
    | error fault session' =>
      refine .inr ?_
      rcases (hends.of_error hrun).2 with hexpected | ⟨rfl, hlong⟩
      · exact .inl ⟨fault, session', rfl, hexpected⟩
      · exact .inr ⟨session', rfl, hlong⟩

/-- A definition is stored once it is evaluated, and a line that goes wrong after it is blamed. -/
theorem reachable_sound_typedIn :
    ("f", Term.lam "y" (.var 0)) ∈ (after (add "f = (\\x. x) (\\y. y)" 1)
      (new (.new .terminal true) Session.typedIn true (some 3))).definitions.entries ∧
    Term.isClosed (.lam "y" (.var 0)) = true ∧
    ∃ fault session', add "f f)" 2 (after (add "f = (\\x. x) (\\y. y)" 1)
        (new (.new .terminal true) Session.typedIn true (some 3))) = .error fault session' ∧
      fault.IsExpected (some 3) := by
  have hsound := reachable_sound
    (.add (.typedIn (.new .terminal true) (some 3)) "f = (\\x. x) (\\y. y)" 1)
  have hmem : ("f", Term.lam "y" (.var 0)) ∈ (after (add "f = (\\x. x) (\\y. y)" 1)
      (new (.new .terminal true) Session.typedIn true (some 3))).definitions.entries := by
    decide +kernel
  refine ⟨hmem, (hsound.1 _ _ hmem).2.1, ?_⟩
  have hlimit : (after (add "f = (\\x. x) (\\y. y)" 1)
      (new (.new .terminal true) Session.typedIn true (some 3))).limit = some 3 := by
    decide +kernel
  have hquery : ((after (add "f = (\\x. x) (\\y. y)" 1)
      (new (.new .terminal true) Session.typedIn true (some 3))).outcome "f f)" 2).toOption
        = none := by
    decide +kernel
  have hdefect : (after (add "f = (\\x. x) (\\y. y)" 1)
      (new (.new .terminal true) Session.typedIn true (some 3))).outcome "f f)" 2
        ≠ .error (.defect .tooManyDigits) := by
    decide +kernel
  rcases hsound.2 "f f)" 2 with ⟨query, session', hrun, -⟩ | ⟨fault, session', hrun, hexpected⟩ |
    ⟨session', hrun, -⟩
  · rw [outcome, hrun] at hquery
    cases hquery
  · rw [hlimit] at hexpected
    exact ⟨fault, session', hrun, hexpected⟩
  · rw [outcome, hrun] at hdefect
    exact absurd rfl hdefect

end Session

end CallByValue
