import CallByValue.Proofs.Printer.RoundTrip
import CallByValue.Proofs.Reduction.Limit
import CallByValue.Proofs.Term.Presentable
/-!
# Lines that are read and evaluated

A line that is read against presentable definitions either gives a presentable value, or ends in one
of a few faults: the line is blamed, the limit is, or evaluation runs out of room. Nothing that is
shown on the way lacks a text, and no contraction fails.
-/

namespace CallByValue

open Grammar

def Definitions.Presentable (definitions : Definitions) : Prop :=
  ∀ name t, definitions.find? name = some t → t.Presentable

theorem isWord_of_mem_tokens {expr : String} {tokens : List Token} {stop : Nat}
    (htokens : tokenize expr = .ok (tokens ++ [⟨.eof, stop⟩])) {name : String}
    (hname : Lexeme.ident name ∈ tokens.map Token.lexeme) :
    Token.isWord name = true ∧ name.toList <:+: expr.toList := by
  obtain ⟨body, hbody, hfrom⟩ := tokenize_eq_ok htokens
  obtain ⟨rfl, -⟩ := List.append_inj' hbody rfl
  obtain ⟨token, htoken, hlexeme⟩ := List.mem_map.mp hname
  exact (hfrom token htoken).2 name hlexeme

/-- Binders and a defined name come from the line. -/
theorem Grammar.IsQuery.ident_mem {lexemes : List Lexeme} {named : NamedQuery}
    (h : IsQuery lexemes named) :
    (∀ param ∈ named.tree.params, .ident param ∈ lexemes) ∧
      ∀ name, named.name = some name → .ident name ∈ lexemes := by
  cases h with
  | definition hterm =>
    constructor
    · intro param hparam
      have hmem := hterm.isRow.mem_params param hparam
      exact List.mem_cons_of_mem _ (List.mem_cons_of_mem _ hmem)
    · intro name hname
      cases hname
      exact List.mem_cons_self
  | term hterm =>
    refine ⟨hterm.isRow.mem_params, ?_⟩
    intro name hname
    cases hname

/-- A line stands for a closed term whose binders come from the line or from a definition. -/
theorem closedWith_of_parse {good : String → Prop}
    (hgood : ∀ name, Token.isWord name = true → good name) {definitions : Definitions}
    (hdefinitions : ∀ name t, definitions.find? name = some t → t.ClosedWith good 0)
    {expr : String} {query : Query} (h : parse definitions expr = .ok query) :
    query.body.ClosedWith good 0 := by
  obtain ⟨tokens, stop, ⟨name?, tree⟩, htokens, hderives, hquery⟩ := parse_eq_ok_iff.mp h
  obtain ⟨hparams, -⟩ := hderives.ident_mem
  obtain ⟨t, ht, rfl⟩ := Option.map_eq_some_iff.mp hquery
  have hclosed : t.ClosedWith good 0 := by
    refine Named.closedWith_of_elaborate hdefinitions ?_ ht
    intro param hparam
    exact hgood param (isWord_of_mem_tokens htokens (hparams param hparam)).1
  cases name? with
  | none => exact hclosed
  | some name => exact hclosed

theorem presentable_of_parse {definitions : Definitions} (hdefinitions : definitions.Presentable)
    {expr : String} {query : Query} (h : parse definitions expr = .ok query) :
    query.body.Presentable ∧ ∀ name body, query = .definition name body →
      Token.isWord name = true ∧ name.toList <:+: expr.toList := by
  refine ⟨closedWith_of_parse (fun _ hname => hname) hdefinitions h, ?_⟩
  intro name body hname
  subst hname
  obtain ⟨tokens, stop, ⟨name?, tree⟩, htokens, hderives, hquery⟩ := parse_eq_ok_iff.mp h
  obtain ⟨t, ht, heq⟩ := Option.map_eq_some_iff.mp hquery
  cases name? with
  | none => cases heq
  | some name' =>
    cases heq
    exact isWord_of_mem_tokens htokens (hderives.ident_mem.2 name rfl)

/-- The ways in which a line can fail: it is to blame, or the limit if there is one, by a diagnostic
that comes from its recipe; evaluation nests too deep; or it has no limit and no end. -/
inductive Fault.IsExpected (limit : Option Int) : Fault → Prop where
  | blames {fault : Fault} (h : fault.BlamesLine) : IsExpected limit fault
  | limit {n : Int} (h : limit = some n)
      (hmade : (Diagnostic.Recipe.nonTermination (toString n)).Makes
        (.nonTermination (toString n))) :
      IsExpected limit (.diagnostic (.nonTermination (toString n)))
  | depth : IsExpected limit .depthExceeded
  | fuel (h : limit = none) : IsExpected limit .outOfFuel

theorem Fault.BlamesLine.kind_ne {d : Diagnostic} (h : (Fault.diagnostic d).BlamesLine) :
    d.kind ≠ .nonTermination := by
  intro hkind
  obtain ⟨d', hd, -, hkinds⟩ := h.exists_diagnostic
  cases hd
  rw [hkind] at hkinds
  simp at hkinds

/-- What ends a line that is read against presentable definitions: the line is to blame, or the
limit, or evaluation runs out of room. -/
inductive Fault.EndsLine (limit : Option Int) : Fault → Prop where
  | blames {fault : Fault} (h : fault.BlamesLine) : EndsLine limit fault
  | limit {n : Int} (h : limit = some n) : EndsLine limit (.nonTermination n)
  | depth : EndsLine limit .depthExceeded
  | fuel (h : limit = none) : EndsLine limit .outOfFuel

/-- Nothing else can go wrong, except that a limit is too long to be blamed. -/
theorem Fault.EndsLine.isExpected_or {limit : Option Int} {fault : Fault}
    (h : fault.EndsLine limit) :
    fault.IsExpected limit ∨
      fault = .defect .tooManyDigits ∧ ∃ n ∈ limit, ¬ Text.Writable n := by
  cases h with
  | blames h => exact .inl (.blames h)
  | @limit n h =>
    rcases Fault.nonTermination_cases n with heq | ⟨heq, hlong⟩
    · rw [heq]
      exact .inl (.limit h (Diagnostic.Recipe.makes_nonTermination _))
    · exact .inr ⟨heq, n, h, hlong⟩
  | depth => exact .inl .depth
  | fuel h => exact .inl (.fuel h)

theorem Fault.EndsLine.isExpected {limit : Option Int} {fault : Fault} (h : fault.EndsLine limit)
    (hlimit : ∀ n ∈ limit, Text.Writable n) : fault.IsExpected limit := by
  rcases h.isExpected_or with hexpected | ⟨-, n, hn, hlong⟩
  · exact hexpected
  · exact absurd (hlimit n hn) hlong

namespace Reducer

variable {β : Type} {reducer : Reducer β}

theorem Runs.closedWith {good : String → Prop} {t u : Term} {p q : Progress β}
    (h : reducer.Runs (t, p) (u, q)) (ht : t.ClosedWith good 0) : u.ClosedWith good 0 := by
  generalize hs : ((u, q) : Term × Progress β) = s at h
  induction h generalizing u q with
  | refl =>
    cases hs
    exact ht
  | @tail s s' _ hmoves ih =>
    subst hs
    obtain ⟨c, note, hcontracts, -⟩ := hmoves
    exact (hcontracts.closedWith (ih rfl)).2

/-- A watcher that knows what to do with every closed term, with good names for its binders, never
ends the evaluation of one. -/
theorem reduceNext_ends {good : String → Prop} (hveto : reducer.veto = none)
    (hwatch : ∀ c : Term, c.ClosedWith good 0 → reducer.watch.Accepts c) {t : Term}
    (ht : t.ClosedWith good 0) (before : Progress β) :
    Ends (reducer.reduceNext t) before (fun r _ => r.ClosedWith good 0 ∧ r.isValue = true)
      (fun fault _ => fault.EndsLine reducer.limit) := by
  apply Ends.intro
  · intro r stop hrun
    obtain ⟨hruns, hnormal⟩ := (reduceWithin_ends _ _ t { before with steps := 0 }).of_ok hrun
    have hr := hruns.closedWith ht
    exact ⟨hr, Term.isValue_of_step_eq_none hr.closed hnormal⟩
  · intro fault stop hrun
    cases (reduceWithin_ends _ _ t { before with steps := 0 }).of_error hrun with
    | depth hruns hfault hnotes =>
      rw [hfault]
      exact .depth
    | fuel hruns hfault hfuel =>
      cases hlimit : reducer.limit with
      | none =>
        rw [hfault]
        exact .fuel rfl
      | some n => exact absurd hfuel (Nat.not_le_of_lt (hruns.lt_fuel hveto hlimit))
    | refused hruns hcontracts hrefuses hstop =>
      rcases hrefuses with hobjection | ⟨-, hfails⟩
      · obtain ⟨n, hlimit, rfl⟩ := exists_limit_of_objection? hveto hobjection
        exact .limit hlimit
      · have hc := (hcontracts.closedWith (hruns.closedWith ht)).1
        exact absurd (hwatch _ hc) (not_accepts_of_error hfails)

end Reducer

theorem Term.ClosedWith.exists_bareText {t : Term} (names : List String)
    (h : t.ClosedWith (· ≠ "") names.length) : ∃ text, t.bareText names = .ok text := by
  induction t generalizing names with
  | var index =>
    obtain ⟨name, hname⟩ : ∃ name, names[index]? = some name :=
      ⟨_, List.getElem?_eq_getElem h.closed⟩
    exact ⟨name, by simp only [bareText, variableText, hname]⟩
  | lam param body ih =>
    obtain ⟨hparam, hbody⟩ := closedWith_lam.mp h
    have hshown := displayName_eq hparam body names
    obtain ⟨text, htext⟩ := ih (shownName param body names :: names) hbody
    refine ⟨"\\" ++ shownName param body names ++ ". " ++ text, ?_⟩
    rw [bareText, hshown]
    simp only [bind, Except.bind, htext]
    rfl
  | app lhs rhs ihl ihr =>
    obtain ⟨hlhs, hrhs⟩ := closedWith_app.mp h
    obtain ⟨left, hleft⟩ := ihl names hlhs
    obtain ⟨right, hright⟩ := ihr names hrhs
    refine ⟨(if lhs.isValue then parenthesized left else left) ++ " " ++
      (if rhs.isValue || rhs.isApplication then parenthesized right else right), ?_⟩
    rw [bareText]
    simp only [bind, Except.bind, hleft, hright]
    rfl

theorem Term.ClosedWith.exists_render {t : Term} (h : t.ClosedWith (· ≠ "") 0) :
    ∃ text, t.render [] = .ok text := by
  obtain ⟨text, htext⟩ := h.exists_bareText []
  refine ⟨if t.isValue then parenthesized text else text, ?_⟩
  rw [render, htext]
  rfl

theorem Term.Presentable.named {t : Term} (h : t.Presentable) : t.ClosedWith (· ≠ "") 0 :=
  h.imp fun _ hname => (Token.isWord_iff.mp hname).1

theorem Query.renderBounded_eq_error {query : Query} (h : query.body.Presentable) {fault : Fault}
    (hfault : query.renderBounded = .error fault) : fault = .depthExceeded := by
  obtain ⟨text, htext⟩ := h.named.exists_render
  rw [renderBounded] at hfault
  split at hfault
  · cases hfault
    rfl
  · cases query with
    | term t => cases htext.symm.trans hfault
    | definition name body =>
      rw [render, show body.render [] = .ok text from htext] at hfault
      cases hfault

namespace Reducer

theorem tracing_accepts (limit : Option Int) (veto : Option Fault) (trace : Bool) {c : Term}
    (hc : c.ClosedWith (· ≠ "") 0) : (tracing limit veto trace).watch.Accepts c := by
  cases trace with
  | false => exact ⟨none, rfl⟩
  | true =>
    obtain ⟨text, htext⟩ := hc.exists_render
    refine ⟨some text, ?_⟩
    change (c.render []).map some = _
    rw [htext]
    rfl

theorem tracing_ne_diagnostic (limit : Option Int) (veto : Option Fault) (trace : Bool) (c : Term)
    (d : Diagnostic) : (tracing limit veto trace).watch c ≠ .error (.diagnostic d) := by
  intro h
  cases trace with
  | false => cases h
  | true =>
    change (c.render []).map some = _ at h
    cases htext : c.render [] with
    | ok text =>
      rw [htext] at h
      cases h
    | error fault =>
      obtain ⟨cause, rfl⟩ := Term.exists_defect_of_render htext
      rw [htext] at h
      cases h

theorem kind_of_reduceNext {β : Type} {reducer : Reducer β} (hveto : reducer.veto = none)
    (hwatch : ∀ c d, reducer.watch c ≠ .error (.diagnostic d)) {t : Term}
    {before stop : Progress β} {d : Diagnostic}
    (h : reducer.reduceNext t before = .error (.diagnostic d) stop) : d.kind = .nonTermination := by
  cases (reduceWithin_ends _ _ t { before with steps := 0 }).of_error h with
  | depth hruns hfault hnotes => cases hfault
  | fuel hruns hfault hfuel => cases hfault
  | @refused u c v progress hruns hcontracts hrefuses hstop =>
    rcases hrefuses with hobjection | ⟨-, hfails⟩
    · obtain ⟨limit, -, hfault⟩ := exists_limit_of_objection? hveto hobjection
      rcases Fault.nonTermination_cases limit with heq | ⟨heq, -⟩
      · cases hfault.trans heq
        rfl
      · cases hfault.trans heq
    · exact absurd hfails (hwatch c d)

/-- A line gives a presentable value, and a definition has a name that stands in the line. -/
structure Gives (expr : String) (query : Query) : Prop where
  presentable : query.body.Presentable
  isValue : query.body.isValue = true
  named : ∀ name body, query = .definition name body →
    Token.isWord name = true ∧ name.toList <:+: expr.toList

theorem Gives.withBody {expr : String} {query : Query} {value : Term}
    (hnamed : ∀ name body, query = .definition name body →
      Token.isWord name = true ∧ name.toList <:+: expr.toList)
    (hpresentable : value.Presentable) (hvalue : value.isValue = true) :
    Gives expr (query.withBody value) := by
  cases query with
  | term t => exact ⟨hpresentable, hvalue, by rintro name body ⟨⟩⟩
  | definition name t =>
    refine ⟨hpresentable, hvalue, ?_⟩
    rintro name body ⟨⟩
    exact hnamed name t rfl

theorem run_result {definitions : Definitions} (hdefinitions : definitions.Presentable)
    (limit : Option Int) (trace : Bool) (expr : String) :
    match ((tracing limit none trace).run definitions expr).result with
    | .ok query => Gives expr query
    | .error fault => fault.EndsLine limit := by
  rw [run]
  cases hbounded : parseBounded definitions expr with
  | error fault =>
    rcases blamesLine_of_parseBounded hbounded with hblames | rfl
    · exact .blames hblames
    · exact .depth
  | ok query =>
    obtain ⟨hbody, hnamed⟩ := presentable_of_parse hdefinitions (parse_of_parseBounded hbounded)
    have hwatch (c : Term) (hc : c.Presentable) := tracing_accepts limit none trace hc.named
    have hends := reduceNext_ends rfl hwatch hbody ⟨0, []⟩
    simp only [evaluate, reduce]
    cases hrun : (tracing limit none trace).reduceNext query.body ⟨0, []⟩ with
    | ok value progress =>
      obtain ⟨hpresentable, hvalue⟩ := hends.of_ok hrun
      exact .withBody hnamed hpresentable hvalue
    | error fault progress => exact hends.of_error hrun

end Reducer

end CallByValue
