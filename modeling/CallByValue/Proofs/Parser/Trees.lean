import CallByValue.Proofs.Parser.Acceptance
/-!
# The tree of a line

The grammar is not ambiguous: a row of lexemes is a writing of one tree at most. Where names are
resolved this does not follow from there being only one term, since a term forgets the names. But
under a scope that holds every name of the row, the names can be read off the term again. The scope
is free to choose, so any two trees of a row are trees of one term, and hence the same.
-/

namespace CallByValue

namespace Named

/-- The names of all variables, in order. -/
def variableNames : Named → List String
  | .var name => [name]
  | .lam _ body => body.variableNames
  | .app lhs rhs => lhs.variableNames ++ rhs.variableNames

theorem exists_elaborate (definitions : Definitions) {tree : Named} {scope : List String}
    (h : ∀ name ∈ tree.variableNames, name ∈ scope) :
    ∃ t, tree.elaborate definitions scope = some t := by
  induction tree generalizing scope with
  | var name =>
    cases hindex : scope.idxOf? name with
    | some index => exact ⟨.var index, by rw [elaborate, hindex]⟩
    | none => exact absurd (h name List.mem_cons_self) (List.idxOf?_eq_none_iff.mp hindex)
  | lam param body ih =>
    obtain ⟨b, hb⟩ := ih fun name hname => List.mem_cons_of_mem param (h name hname)
    exact ⟨.lam param b, elaborate_lam_eq_some.mpr ⟨b, hb, rfl⟩⟩
  | app lhs rhs ihl ihr =>
    obtain ⟨l, hl⟩ := ihl fun name hname => h name (List.mem_append_left _ hname)
    obtain ⟨r, hr⟩ := ihr fun name hname => h name (List.mem_append_right _ hname)
    exact ⟨.app l r, elaborate_app_eq_some.mpr ⟨l, r, hl, hr, rfl⟩⟩

theorem elaborate_empty_var_eq_some {name : String} {scope : List String} {t : Term} :
    (Named.var name).elaborate .empty scope = some t ↔
      ∃ index, scope.idxOf? name = some index ∧ .var index = t := by
  rw [elaborate]
  cases scope.idxOf? name <;> simp

theorem elaborate_empty_injective {tree other : Named} {scope : List String} {t : Term}
    (h : tree.elaborate .empty scope = some t) (h' : other.elaborate .empty scope = some t) :
    tree = other := by
  induction tree generalizing other scope t with
  | var name =>
    obtain ⟨index, hindex, rfl⟩ := elaborate_empty_var_eq_some.mp h
    cases other with
    | var name' =>
      obtain ⟨_, hindex', ⟨⟩⟩ := elaborate_empty_var_eq_some.mp h'
      obtain ⟨_, hname, -⟩ := List.idxOf?_eq_some_iff.mp hindex
      obtain ⟨_, hname', -⟩ := List.idxOf?_eq_some_iff.mp hindex'
      rw [← hname, hname']
    | lam param body =>
      obtain ⟨b, -, ⟨⟩⟩ := elaborate_lam_eq_some.mp h'
    | app lhs rhs =>
      obtain ⟨l, r, -, -, ⟨⟩⟩ := elaborate_app_eq_some.mp h'
  | lam param body ih =>
    obtain ⟨b, hb, rfl⟩ := elaborate_lam_eq_some.mp h
    cases other with
    | var name =>
      obtain ⟨_, -, ⟨⟩⟩ := elaborate_empty_var_eq_some.mp h'
    | lam param' body' =>
      obtain ⟨_, hb', ⟨⟩⟩ := elaborate_lam_eq_some.mp h'
      rw [ih hb hb']
    | app lhs rhs =>
      obtain ⟨l, r, -, -, ⟨⟩⟩ := elaborate_app_eq_some.mp h'
  | app lhs rhs ihl ihr =>
    obtain ⟨l, r, hl, hr, rfl⟩ := elaborate_app_eq_some.mp h
    cases other with
    | var name =>
      obtain ⟨_, -, ⟨⟩⟩ := elaborate_empty_var_eq_some.mp h'
    | lam param body =>
      obtain ⟨b, -, ⟨⟩⟩ := elaborate_lam_eq_some.mp h'
    | app lhs' rhs' =>
      obtain ⟨_, _, hl', hr', ⟨⟩⟩ := elaborate_app_eq_some.mp h'
      rw [ihl hl hl', ihr hr hr']

end Named

namespace Grammar

/-! ### Rows -/

/-- The names of all identifiers in a row. -/
def identifiers (lexemes : List Lexeme) : List String :=
  lexemes.filterMap fun
    | .ident name => some name
    | _ => none

theorem mem_identifiers {lexemes : List Lexeme} {name : String} :
    name ∈ identifiers lexemes ↔ .ident name ∈ lexemes := by
  rw [identifiers, List.mem_filterMap]
  constructor
  · rintro ⟨lexeme, hmem, hname⟩
    cases lexeme <;> cases hname
    exact hmem
  · intro hmem
    exact ⟨_, hmem, rfl⟩

theorem variableNames_uniform :
    Uniform fun lexemes tree => ∀ name ∈ tree.variableNames, .ident name ∈ lexemes where
  lam := by
    intro param lexemes body ih name hname
    simp [ih name hname]
  app := by
    intro left right lhs rhs ihl ihr name hname
    exact List.mem_append.mpr ((List.mem_append.mp hname).imp (ihl name) (ihr name))
  ident := by
    intro name other hother
    rw [List.mem_singleton.mp hother]
    exact List.mem_cons_self
  paren := by
    intro lexemes tree ih name hname
    simp [ih name hname]

/-- The grammar is not ambiguous. -/
theorem IsTerm.unique {lexemes : List Lexeme} {tree other : Named} (h : IsTerm lexemes tree)
    (h' : IsTerm lexemes other) : tree = other := by
  have hscope {tree : Named} (h : IsTerm lexemes tree) (name : String)
      (hname : name ∈ tree.variableNames) : name ∈ identifiers lexemes :=
    mem_identifiers.mpr (h.uniform variableNames_uniform name hname)
  obtain ⟨t, ht⟩ := Named.exists_elaborate .empty (hscope h)
  obtain ⟨u, hu⟩ := Named.exists_elaborate .empty (hscope h')
  -- whoever reads the row under these names reads both terms
  let tokens : List Token := lexemes.map (⟨·, 0⟩)
  have htokens : tokens.map Token.lexeme = lexemes := by simp [tokens, Function.comp_def]
  have hread {tree : Named} {t : Term} (h : IsTerm lexemes tree)
      (ht : tree.elaborate .empty (identifiers lexemes) = some t) :
      Parser.term ⟨"", .empty⟩ (identifiers lexemes) (tokens ++ [⟨.eof, 0⟩])
        = .ok t [⟨.eof, 0⟩] :=
    Parser.term_of_isTerm (htokens.symm ▸ h) ht ⟨_, [], rfl, by simp, by simp⟩
  cases (hread h ht).symm.trans (hread h' hu)
  exact Named.elaborate_empty_injective ht hu

/-! ### Lines -/

/-- The line is a writing of the tree, as a term and not as a definition. -/
def Derives (expr : String) (tree : Named) : Prop :=
  ∃ lexemes, CutsInto expr lexemes ∧ IsTerm lexemes tree

theorem Derives.unique {expr : String} {tree other : Named} (h : Derives expr tree)
    (h' : Derives expr other) : tree = other := by
  obtain ⟨lexemes, hcuts, hterm⟩ := h
  obtain ⟨lexemes', hcuts', hterm'⟩ := h'
  cases hcuts.unique hcuts'
  exact hterm.unique hterm'

theorem IsQuery.isTerm {lexemes : List Lexeme} {tree : Named} (h : IsQuery lexemes ⟨none, tree⟩) :
    IsTerm lexemes tree := by
  cases h with
  | term h => exact h

theorem standsFor_term_iff {definitions : Definitions} {expr : String} {t : Term} :
    StandsFor definitions expr (.term t) ↔
      ∃ tree, Derives expr tree ∧ tree.elaborate definitions [] = some t := by
  constructor
  · rintro ⟨tokens, stop, ⟨name, tree⟩, htokens, hderives, hquery⟩
    obtain ⟨u, hu, heq⟩ := Option.map_eq_some_iff.mp hquery
    cases name with
    | some name => cases heq
    | none =>
      cases heq
      exact ⟨tree, ⟨_, ⟨tokens, stop, htokens, rfl⟩, hderives.isTerm⟩, hu⟩
  · rintro ⟨tree, ⟨_, ⟨tokens, stop, htokens, rfl⟩, hterm⟩, ht⟩
    refine ⟨tokens, stop, ⟨none, tree⟩, htokens, .term hterm, ?_⟩
    rw [NamedQuery.elaborate, ht, Option.map_some]

end Grammar

end CallByValue
