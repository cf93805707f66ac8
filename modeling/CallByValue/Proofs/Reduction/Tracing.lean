import CallByValue.Proofs.Reduction.Lockstep
import CallByValue.Proofs.Reduction.Safety
/-!
# Traced evaluations

Whoever traces an evaluation is shown the text of every contractum as it is made. The printer could
fail on a binder without a name, and then the evaluation would end; where every binder has a name, it
never does, and a traced evaluation comes to what the same evaluation comes to when nobody watches.
The texts are those of the contracta in the row of steps, one for each contraction that was made. The
last contractum of an evaluation that comes to a value is the value itself: all other contractions
happen inside an application, and leave an application behind.
-/

namespace CallByValue

namespace Term

/-! ### The row of contracta -/

/-- A contraction inside an application leaves an application, so one that leaves a value was made at
the root. -/
theorem Contracts.eq_of_isValue {t c u : Term} (h : t.Contracts c u) (hvalue : u.isValue = true) :
    c = u := by
  cases t with
  | var index => cases h.step
  | lam param body => cases h.step
  | app lhs rhs =>
    rcases h.app_cases with ⟨l, -, rfl⟩ | ⟨-, r, -, rfl⟩ | ⟨-, param, body, -, rfl, rfl⟩
    · cases hvalue
    · cases hvalue
    · rfl

theorem getLast?_contracta {t r : Term} {count : Nat} (h : steps count t = some r)
    (hvalue : r.isValue = true) (hpos : 0 < count) : (contracta count t).getLast? = some r := by
  obtain ⟨less, rfl⟩ := Nat.exists_eq_succ_of_ne_zero (Nat.ne_of_gt hpos)
  rw [Nat.succ_eq_add_one, steps_add] at h
  obtain ⟨u, hu, hlast⟩ := Option.bind_eq_some_iff.mp h
  obtain ⟨v, hstep, hv⟩ := Option.bind_eq_some_iff.mp hlast
  cases hv
  obtain ⟨c, hc⟩ := exists_contracts hstep
  rw [Nat.succ_eq_add_one, contracta_add hu, contracta_succ hc, contracta, List.getLast?_concat,
    hc.eq_of_isValue hvalue]

theorem ClosedWith.of_mem_contracta {good : String → Prop} {t c : Term} {count : Nat}
    (ht : ClosedWith good 0 t) (hc : c ∈ contracta count t) : ClosedWith good 0 c := by
  induction count generalizing t with
  | zero => cases hc
  | succ count ih =>
    cases hstep : t.step with
    | none =>
      rw [contracta_of_step_eq_none hstep] at hc
      cases hc
    | some u =>
      obtain ⟨first, hfirst⟩ := exists_contracts hstep
      rw [contracta_succ hfirst] at hc
      rcases List.mem_cons.mp hc with rfl | hc
      · exact (hfirst.closedWith ht).1
      · exact ih (hfirst.closedWith ht).2 hc

/-! ### Texts of a row -/

/-- As many steps as there are texts lead from `t` to `u`, and the texts are those of the contracta
on the way, in order. -/
structure Traces (t : Term) (texts : List String) (u : Term) : Prop where
  steps : Term.steps texts.length t = some u
  render : texts.map Except.ok = (contracta texts.length t).map (Term.render · [])

theorem Traces.getLast? {t r : Term} {texts : List String} (h : t.Traces texts r)
    (hvalue : r.isValue = true) (hpos : 0 < texts.length) :
    ∃ text, r.render [] = .ok text ∧ texts.getLast? = some text := by
  have hlast : (texts.map Except.ok).getLast? = some (r.render []) := by
    rw [h.render, List.getLast?_map, getLast?_contracta h.steps hvalue hpos]
    rfl
  rw [List.getLast?_map] at hlast
  obtain ⟨text, htext, hrender⟩ := Option.map_eq_some_iff.mp hlast
  exact ⟨text, hrender.symm, htext⟩

theorem Traces.exists_render {t u : Term} {texts : List String} (h : t.Traces texts u)
    {text : String} (htext : text ∈ texts) :
    ∃ c ∈ contracta texts.length t, c.render [] = .ok text := by
  have hmem : Except.ok text ∈ (contracta texts.length t).map (Term.render · []) := by
    rw [← h.render]
    exact List.mem_map_of_mem htext
  obtain ⟨c, hc, hrender⟩ := List.mem_map.mp hmem
  exact ⟨c, hc, hrender⟩

theorem Presentable.parse_render {t : Term} (h : t.Presentable) (definitions : Definitions)
    {text : String} (htext : t.render [] = .ok text) :
    ∃ u, parse definitions text = .ok (.term u) ∧ u.isClosed = true := by
  have hclosed : t.isClosed = true := isClosed_iff.mpr h.closed
  have hshowable := Showable.of_isClosed h.params hclosed
  obtain ⟨text', htext', hwrites⟩ := render_writes hshowable
  cases htext.symm.trans htext'
  obtain ⟨u, hu, halpha⟩ := elaborate_shown definitions hshowable
  refine ⟨u, parse_of_standsFor (.term hwrites hu), ?_⟩
  rw [isClosed, ← freeIndices_unnamed, show u.unnamed = t.unnamed from halpha, freeIndices_unnamed]
  exact hclosed

/-- Closed terms whose binders have good names are carried on as they are. -/
theorem ClosedWith.lockstep (good : String → Prop) :
    Lockstep fun t u => t = u ∧ t.ClosedWith good 0 where
  var := by
    intro index u h
    exact ⟨index, h.1.symm⟩
  lam := by
    intro param body u h
    exact ⟨param, body, h.1.symm⟩
  parts := by
    intro lhs rhs u h
    obtain ⟨hlhs, hrhs⟩ := closedWith_app.mp h.2
    exact ⟨lhs, rhs, h.1.symm, ⟨rfl, hlhs⟩, rfl, hrhs⟩
  app := by
    intro lhs lhs' rhs rhs' hlhs hrhs
    exact ⟨by rw [hlhs.1, hrhs.1], closedWith_app.mpr ⟨hlhs.2, hrhs.2⟩⟩
  instantiate := by
    intro param param' body body' value value' hbody hvalue
    obtain ⟨hlam, hclosed⟩ := hbody
    cases hlam
    exact ⟨by rw [hvalue.1], hvalue.2.instantiate (closedWith_lam.mp hclosed).2⟩
  depth := by
    intro t u h
    rw [h.1]

end Term

theorem Watcher.map_noted_texts {cs : List Term} (h : ∀ c ∈ cs, Watcher.texts.Accepts c) :
    (Watcher.texts.noted cs).map Except.ok = cs.map (Term.render · []) := by
  induction cs with
  | nil => rfl
  | cons c cs ih =>
    have hrest := ih fun c' hc' => h c' (List.mem_cons_of_mem _ hc')
    obtain ⟨note, hnote⟩ := h c List.mem_cons_self
    cases hrender : c.render [] with
    | error fault => simp [Watcher.texts, hrender, Except.map] at hnote
    | ok text =>
      have hfirst : Watcher.texts c = .ok (some text) := by
        rw [Watcher.texts, hrender]
        rfl
      rw [List.map_cons, hrender, ← hrest]
      simp only [Watcher.noted, List.filterMap_cons, hfirst]
      rfl

theorem Outcome.Alike.eq {α β β' : Type} {outcome : Outcome α β} {outcome' : Outcome α β'}
    (h : outcome.Alike Eq outcome') :
    outcome.result = outcome'.result ∧ outcome.steps = outcome'.steps := by
  obtain ⟨hcount, hresult⟩ := h
  refine ⟨?_, hcount⟩
  revert hresult
  cases outcome.result <;> cases outcome'.result
  · exact congrArg Except.error
  · exact False.elim
  · exact False.elim
  · exact congrArg Except.ok

namespace Reducer

variable {limit : Option Int} {t : Term}

theorem Follows.traces {u : Term} {count : Nat} {stop : Progress String}
    (h : (tracing limit none true).Follows t ⟨0, []⟩ count u stop) :
    t.Traces stop.notes.reverse u ∧ stop.notes.length = stop.steps := by
  have hnotes : stop.notes.reverse = Watcher.texts.noted (Term.contracta count t) := by
    rw [h.stop_eq, List.append_nil, List.reverse_reverse]
    rfl
  have hrender := Watcher.map_noted_texts h.accepts
  have hlength : stop.notes.reverse.length = count := by
    have heq := congrArg List.length hrender
    rw [List.length_map, List.length_map, Term.length_contracta h.steps] at heq
    rw [hnotes, heq]
  refine ⟨⟨?_, ?_⟩, ?_⟩
  · rw [hlength]
    exact h.steps
  · rw [hlength, hnotes]
    exact hrender
  · rw [← List.length_reverse, hlength, h.stop_eq, Nat.zero_add]

/-- However a traced evaluation ends, the notes are the texts of a row of contracta. -/
theorem reduceNext_traces (limit : Option Int) (t : Term) :
    Ends ((tracing limit none true).reduceNext t) ⟨0, []⟩
      (fun r stop => t.Traces stop.notes.reverse r ∧ stop.notes.length = stop.steps)
      (fun _ stop => ∃ u, t.Traces stop.notes.reverse u) := by
  let reducer := tracing limit none true
  have hends := reducer.reduceWithin_ends reducer.fuel Term.maxDepth t ⟨0, []⟩
  apply Ends.intro
  · intro r stop hrun
    obtain ⟨count, hfollows⟩ := (hends.of_ok hrun).1.follows
    exact hfollows.traces
  · intro fault stop hrun
    obtain ⟨u, progress, hruns, hnotes⟩ := (hends.of_error hrun).exists_runs
    obtain ⟨count, hfollows⟩ := hruns.follows
    refine ⟨u, ?_⟩
    rw [hnotes]
    exact hfollows.traces.1

theorem length_notes_of_nonTermination (ht : t.ClosedWith (· ≠ "") 0) {d : Diagnostic}
    (hkind : d.kind = .nonTermination) {stop : Progress String}
    (h : (tracing limit none true).reduceNext t ⟨0, []⟩ = .error (.diagnostic d) stop) :
    ∃ n, limit = some n ∧ stop.notes.length = n.toNat := by
  have hwatch (c : Term) (hc : c.ClosedWith (· ≠ "") 0) := tracing_accepts limit none true hc
  generalize hfault : Fault.diagnostic d = fault at h
  cases (reduceNext_ends rfl hwatch ht ⟨0, []⟩).of_error h with
  | blames hblames =>
    subst hfault
    exact absurd hkind hblames.kind_ne
  | depth | fuel _ => cases hfault
  | @limit n hlimit =>
    refine ⟨n, hlimit, ?_⟩
    obtain ⟨count, u, c, v, progress, hfollows, hcontracts, rfl, hcause⟩ :=
      follows_of_reduceNext_error rfl hlimit h (hfault ▸ nofun)
    rcases hcause with ⟨hcount, -⟩ | ⟨hlt, hfails⟩
    · rw [hfollows.traces.2, hfollows.stop_eq, hcount, Nat.zero_add]
    · obtain ⟨back, hrow⟩ := Term.contracta_eq_append_cons hfollows.steps hcontracts hlt
      have hmem : c ∈ Term.contracta n.toNat t := by simp [hrow]
      exact absurd (hwatch c (ht.of_mem_contracta hmem)) (not_accepts_of_error hfails)

/-- The evaluation of `start` as it is told by the texts of its contracta, one for each that was
made: it comes to the end of the row, or has used up the limit. -/
structure Tells (limit : Option Int) (start : Query) (traced : Outcome Query String) : Prop where
  traces : ∃ u, start.body.Traces traced.notes u ∧ ∀ query, traced.result = .ok query →
    query = start.withBody u ∧ u.isValue = true ∧ traced.notes.length = traced.steps
  limit : ∀ d, traced.result = .error (.diagnostic d) → d.kind = .nonTermination →
    ∃ n, limit = some n ∧ traced.notes.length = n.toNat

theorem evaluate_tells (limit : Option Int) {start : Query}
    (h : start.body.ClosedWith (· ≠ "") 0) :
    Tells limit start ((tracing limit none true).evaluate start) := by
  have hwatch (c : Term) (hc : c.ClosedWith (· ≠ "") 0) := tracing_accepts limit none true hc
  have hends := reduceNext_ends rfl hwatch h ⟨0, []⟩
  have htraces := reduceNext_traces limit start.body
  rw [evaluate, reduce]
  cases hrun : (tracing limit none true).reduceNext start.body ⟨0, []⟩ with
  | ok r stop =>
    obtain ⟨-, hvalue⟩ := hends.of_ok hrun
    obtain ⟨htexts, hlength⟩ := htraces.of_ok hrun
    refine ⟨⟨r, htexts, ?_⟩, ?_⟩
    · intro query hquery
      cases hquery
      exact ⟨rfl, hvalue, List.length_reverse.trans hlength⟩
    · intro d hd
      cases hd
  | error fault stop =>
    obtain ⟨u, htexts⟩ := htraces.of_error hrun
    refine ⟨⟨u, htexts, ?_⟩, ?_⟩
    · intro query hquery
      cases hquery
    · intro d hd hkind
      cases hd
      obtain ⟨n, hlimit, hlength⟩ := length_notes_of_nonTermination h hkind hrun
      exact ⟨n, hlimit, List.length_reverse.trans hlength⟩

theorem Tells.getLast? {limit : Option Int} {start query : Query} {traced : Outcome Query String}
    (h : Tells limit start traced) (hquery : traced.result = .ok query) (hpos : 0 < traced.steps) :
    ∃ text, query.body.render [] = .ok text ∧ traced.notes.getLast? = some text := by
  obtain ⟨u, htraces, hresult⟩ := h.traces
  obtain ⟨rfl, hvalue, hlength⟩ := hresult query hquery
  obtain ⟨text, hrender, hlast⟩ := htraces.getLast? hvalue (hlength ▸ hpos)
  refine ⟨text, ?_, hlast⟩
  cases start with
  | term t => exact hrender
  | definition name t => exact hrender

/-- Where the names in the definitions are read from lines too, every text is a line. -/
theorem Tells.parse_notes {limit : Option Int} {start : Query} {traced : Outcome Query String}
    (h : Tells limit start traced) (hstart : start.body.Presentable) (definitions : Definitions)
    {text : String} (htext : text ∈ traced.notes) :
    ∃ u, parse definitions text = .ok (.term u) ∧ u.isClosed = true := by
  obtain ⟨u, htraces, -⟩ := h.traces
  obtain ⟨c, hc, hrender⟩ := htraces.exists_render htext
  have hpresentable : c.Presentable := Term.ClosedWith.of_mem_contracta hstart hc
  exact hpresentable.parse_render definitions hrender

theorem named_of_parseBounded {definitions : Definitions}
    (hdefinitions : ∀ name t, definitions.find? name = some t → t.ClosedWith (· ≠ "") 0)
    {expr : String} {query : Query} (h : parseBounded definitions expr = .ok query) :
    query.body.ClosedWith (· ≠ "") 0 := by
  apply closedWith_of_parse ?_ hdefinitions (parse_of_parseBounded h)
  intro name hword
  exact (Token.isWord_iff.mp hword).1

/-- Nothing is different about a line for being traced, if every text can be written. -/
theorem run_tracing_eq {definitions : Definitions}
    (hdefinitions : ∀ name t, definitions.find? name = some t → t.ClosedWith (· ≠ "") 0)
    (limit : Option Int) (expr : String) :
    ((tracing limit none true).run definitions expr).Alike Eq
      ((tracing limit none false).run definitions expr) := by
  rw [run, run]
  cases hbounded : parseBounded definitions expr with
  | error fault => exact ⟨rfl, rfl⟩
  | ok query =>
    have hbody := named_of_parseBounded hdefinitions hbounded
    have hwatch (c c' : Term) (hc : c = c' ∧ c.ClosedWith (· ≠ "") 0) :
        (tracing limit none true).watch.Accepts c ∧ (tracing limit none false).watch.Accepts c' := by
      obtain ⟨rfl, hclosed⟩ := hc
      exact ⟨tracing_accepts limit none true hclosed, tracing_accepts limit none false hclosed⟩
    have hlimit : (tracing limit none true).limit = (tracing limit none false).limit := rfl
    have hveto : (tracing limit none true).veto = (tracing limit none false).veto := rfl
    have hquery : query = query.withBody query.body := by
      cases query <;> rfl
    have halike := evaluate_alike (Term.ClosedWith.lockstep (· ≠ "")) hlimit hveto hwatch
      ⟨⟨rfl, hbody⟩, hquery⟩
    apply halike.imp
    intro answer answer' hrelated
    exact Query.related_eq_iff.mp ⟨hrelated.1.1, hrelated.2⟩

/-- **Tracing is transparent and faithful.** Where all definitions are closed and give every binder a
name, a line comes to the same result or the same fault whether it is traced or not, after as many
contractions. A line that cannot be read leaves no texts. Otherwise there is one text for each
contraction that was made, in order: as many as were counted if the line comes to a value, and as many
as the limit allows if that is blamed. The last text is that of the value, if it took a contraction
to come to it. And if the names in the definitions can be read, so can every text, as a closed term
and with nothing defined. -/
theorem tracing_is_transparent (definitions : Definitions)
    (hdefinitions : ∀ name t, definitions.find? name = some t →
      t.isClosed = true ∧ ∀ param ∈ t.params, param ≠ "")
    (limit : Option Int) (expr : String) :
    let traced := (tracing limit none true).run definitions expr
    let plain := (tracing limit none false).run definitions expr
    traced.result = plain.result ∧ traced.steps = plain.steps ∧
    (∀ fault, parseBounded definitions expr = .error fault →
      traced.result = .error fault ∧ traced.notes = []) ∧
    (∀ start, parseBounded definitions expr = .ok start →
      ∃ u, start.body.Traces traced.notes u ∧
        ∀ query, traced.result = .ok query →
          query = start.withBody u ∧ traced.notes.length = traced.steps) ∧
    (∀ d, traced.result = .error (.diagnostic d) → d.kind = .nonTermination →
      ∃ n, limit = some n ∧ traced.notes.length = n.toNat) ∧
    (∀ query, traced.result = .ok query → 0 < traced.steps →
      ∃ text, query.body.render [] = .ok text ∧ traced.notes.getLast? = some text) ∧
    ((∀ name t, definitions.find? name = some t →
        ∀ param ∈ t.params, Token.isWord param = true) →
      ∀ text ∈ traced.notes, ∃ u, parse .empty text = .ok (.term u) ∧ u.isClosed = true) := by
  have hclosed (name : String) (t : Term) (ht : definitions.find? name = some t) :
      t.ClosedWith (· ≠ "") 0 :=
    ⟨Term.isClosed_iff.mp (hdefinitions name t ht).1, (hdefinitions name t ht).2⟩
  obtain ⟨hresult, hsteps⟩ := (run_tracing_eq hclosed limit expr).eq
  intro traced plain
  refine ⟨hresult, hsteps, ?_⟩
  cases hbounded : parseBounded definitions expr with
  | error fault =>
    have htraced : traced = ⟨.error fault, 0, []⟩ := by
      simp only [traced, run, hbounded]
    rw [htraced]
    refine ⟨?_, ?_, ?_, ?_, ?_⟩
    · intro fault' hfault
      cases hfault
      exact ⟨rfl, rfl⟩
    · intro start hstart
      cases hstart
    · intro d hd hkind
      cases hd
      rcases blamesLine_of_parseBounded hbounded with hblames | hdeep
      · exact absurd hkind hblames.kind_ne
      · cases hdeep
    · intro query hquery
      cases hquery
    · intro _ text htext
      cases htext
  | ok start =>
    have htraced : traced = (tracing limit none true).evaluate start := by
      simp only [traced, run, hbounded]
    have htells := evaluate_tells limit (named_of_parseBounded hclosed hbounded)
    rw [← htraced] at htells
    refine ⟨?_, ?_, htells.limit, fun query => htells.getLast?, ?_⟩
    · intro fault hfault
      cases hfault
    · intro start' hstart
      cases hstart
      obtain ⟨u, htraces, hvalues⟩ := htells.traces
      refine ⟨u, htraces, ?_⟩
      intro query hquery
      obtain ⟨hbody, -, hlength⟩ := hvalues query hquery
      exact ⟨hbody, hlength⟩
    · intro hwords text htext
      have hpresentable (name : String) (t : Term) (ht : definitions.find? name = some t) :
          t.Presentable :=
        ⟨(hclosed name t ht).closed, hwords name t ht⟩
      have hparse := parse_of_parseBounded hbounded
      exact htells.parse_notes (presentable_of_parse hpresentable hparse).1 .empty htext

/-- A traced definition that takes two contractions, the last of which shows a binder renamed. And a
term under a name that no line can hold, which uses up its limit of three. -/
theorem tracing_is_transparent_renamed :
    (∃ traced, (tracing (some 2) none true).run
        (NameMap.empty.insert "k" (.lam "x" (.lam "x" (.var 1)))) "s = k k (\\z. z)" = traced ∧
      traced.result = .ok (.definition "s" (.lam "x" (.lam "x" (.var 1)))) ∧
      traced.notes.length = 2 ∧ traced.notes.getLast? = some "(\\x. \\xx. x)" ∧
      ∀ text ∈ traced.notes, ∃ u, parse .empty text = .ok (.term u) ∧ u.isClosed = true) ∧
    ∃ traced, (tracing (some 3) none true).run
        (NameMap.empty.insert "w" (.lam "1" (.app (.var 0) (.var 0)))) "w w" = traced ∧
      traced.result = .error (.diagnostic (.nonTermination "3")) ∧ traced.notes.length = 3 := by
  constructor
  · have hplain : ((tracing (some 2) none false).run
        (NameMap.empty.insert "k" (.lam "x" (.lam "x" (.var 1)))) "s = k k (\\z. z)").result
          = .ok (.definition "s" (.lam "x" (.lam "x" (.var 1)))) := by
      decide +kernel
    have hcount : ((tracing (some 2) none false).run
        (NameMap.empty.insert "k" (.lam "x" (.lam "x" (.var 1)))) "s = k k (\\z. z)").steps = 2 := by
      decide +kernel
    have hstart : parseBounded (NameMap.empty.insert "k" (.lam "x" (.lam "x" (.var 1))))
        "s = k k (\\z. z)" = .ok (.definition "s" (.app (.app (.lam "x" (.lam "x" (.var 1)))
          (.lam "x" (.lam "x" (.var 1)))) (.lam "z" (.var 0)))) := by
      decide +kernel
    have hrender : Term.render (.lam "x" (.lam "x" (.var 1))) [] = .ok "(\\x. \\xx. x)" := by
      simp [Term.render, Term.bareText, Term.displayName, Term.referenced, Term.freeIndices,
        Term.freshen, Term.variableText, Term.isValue, Term.parenthesized, bind,
        Except.bind, pure, Except.pure]
    have hdefined (name : String) (t : Term)
        (ht : (NameMap.empty.insert "k" (Term.lam "x" (.lam "x" (.var 1)))).find? name = some t) :
        t = .lam "x" (.lam "x" (.var 1)) := by
      rw [NameMap.find?_insert, NameMap.find?_empty] at ht
      split at ht <;> cases ht
      rfl
    have hclosed (name : String) (t : Term)
        (ht : (NameMap.empty.insert "k" (Term.lam "x" (.lam "x" (.var 1)))).find? name = some t) :
        t.isClosed = true ∧ ∀ param ∈ t.params, param ≠ "" := by
      rw [hdefined name t ht]
      decide
    obtain ⟨hresult, hsteps, -, htraces, -, hlast, hparse⟩ :=
      tracing_is_transparent _ hclosed (some 2) "s = k k (\\z. z)"
    rw [hplain] at hresult
    rw [hcount] at hsteps
    obtain ⟨u, -, hlength⟩ := htraces _ hstart
    obtain ⟨text, htext, hnotes⟩ := hlast _ hresult (by omega)
    cases hrender.symm.trans htext
    refine ⟨_, rfl, hresult, (hlength _ hresult).2.trans hsteps, hnotes, hparse ?_⟩
    intro name t ht
    rw [hdefined name t ht]
    decide
  · have hplain : ((tracing (some 3) none false).run
        (NameMap.empty.insert "w" (.lam "1" (.app (.var 0) (.var 0)))) "w w").result
          = .error (.diagnostic (.nonTermination "3")) := by
      decide +kernel
    have hdefinitions (name : String) (t : Term)
        (ht : (NameMap.empty.insert "w" (Term.lam "1" (.app (.var 0) (.var 0)))).find? name = some t) :
        t.isClosed = true ∧ ∀ param ∈ t.params, param ≠ "" := by
      rw [NameMap.find?_insert, NameMap.find?_empty] at ht
      split at ht <;> cases ht
      decide
    obtain ⟨hresult, -, -, -, hlimit, -⟩ :=
      tracing_is_transparent _ hdefinitions (some 3) "w w"
    rw [hplain] at hresult
    obtain ⟨n, hn, hlength⟩ := hlimit _ hresult rfl
    cases hn
    exact ⟨_, rfl, hresult, hlength⟩

end Reducer

end CallByValue
