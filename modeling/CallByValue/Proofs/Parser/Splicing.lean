import CallByValue.Proofs.Parser.Trees
import CallByValue.Proofs.Term.Contraction
/-!
# A definition is a binder that was contracted

A name can be given its value in two ways: it is defined before the line is read, and the value is
put in for it on the way, or the line is read under a binder of that name, and the abstraction is
contracted with the value afterwards. The two come to the same. Reading under the binder, the name
counts as one more name at the far end of the scope, and instantiating that end of the scope puts
the value in its place. Neither the value nor any other definition has variables that could be
caught or moved on the way.
-/

namespace CallByValue

open Grammar

/-! ### A binder in front of a line -/

theorem scan_abstraction {param : String} (hparam : Token.isWord param = true) (expr : String) :
    Token.scan 0 ("\\" ++ param ++ ". " ++ expr).toList
      = ((Token.scan 0 expr.toList).map fun tokens =>
          ⟨.lambda, 0⟩ :: ⟨.ident param, 1⟩ :: ⟨.dot, param.length + 1⟩ ::
            tokens.map (Token.moved (param.length + 3))).mapError
        (·.moved (param.length + 3)) := by
  have hline : ("\\" ++ param ++ ". " ++ expr).toList
      = '\\' :: (param.toList ++ '.' :: ' ' :: expr.toList) := by
    simp
  have hdot : 0 + 1 + param.toList.length = param.length + 1 := by
    rw [String.length_toList]
    omega
  have hmoved := Token.scan_moved (param.length + 3) 0 expr.toList
  rw [Nat.zero_add] at hmoved
  rw [hline, Token.scan_punctuation rfl, Token.scan_word hparam (.cons (by decide) _),
    Token.scan_punctuation rfl, Token.scan_blank (by decide), hdot, hmoved]
  cases Token.scan 0 expr.toList <;> rfl

theorem cutsInto_abstraction_iff {param : String} (hparam : Token.isWord param = true)
    {expr : String} {lexemes : List Lexeme} :
    CutsInto ("\\" ++ param ++ ". " ++ expr) lexemes ↔
      ∃ later, CutsInto expr later ∧ lexemes = .lambda :: .ident param :: .dot :: later := by
  simp only [cutsInto_iff, scan_abstraction hparam]
  cases hscan : Token.scan 0 expr.toList with
  | error fault => simp [Except.map, Except.mapError]
  | ok tokens =>
    obtain ⟨body, rfl, -⟩ := (Token.cuts_of_scan hscan).exists_body
    simp only [Except.map, Except.mapError, List.map_cons, List.map_append, List.map_map,
      Function.comp_def, Token.lexeme_moved, List.map_nil, Except.ok.injEq,
      List.append_cancel_right_eq]
    rw [← List.cons_append, ← List.cons_append, ← List.cons_append, List.append_cancel_right_eq]
    constructor
    · rintro rfl
      exact ⟨_, rfl, rfl⟩
    · rintro ⟨later, rfl, rfl⟩
      rfl

theorem Grammar.IsTerm.exists_body {param : String} {lexemes : List Lexeme} {tree : Named}
    (h : IsTerm (.lambda :: .ident param :: .dot :: lexemes) tree) :
    ∃ body, IsTerm lexemes body ∧ tree = .lam param body := by
  cases h with
  | lam h => exact ⟨_, h, rfl⟩
  | application h =>
    obtain ⟨lexeme, later, heq, hlambda⟩ := h.exists_cons
    cases heq
    exact absurd rfl hlambda

theorem Grammar.IsQuery.exists_body {param : String} {lexemes : List Lexeme} {named : NamedQuery}
    (h : IsQuery (.lambda :: .ident param :: .dot :: lexemes) named) :
    ∃ body, IsTerm lexemes body ∧ named = ⟨none, .lam param body⟩ := by
  cases h with
  | term h =>
    obtain ⟨body, hbody, rfl⟩ := h.exists_body
    exact ⟨body, hbody, rfl⟩

theorem parse_abstraction_eq_ok_iff {param : String} (hparam : Token.isWord param = true)
    {definitions : Definitions} {expr : String} {query : Query} :
    parse definitions ("\\" ++ param ++ ". " ++ expr) = .ok query ↔
      ∃ tree b, Derives expr tree ∧ tree.elaborate definitions [param] = some b ∧
        .term (.lam param b) = query := by
  rw [parse_eq_ok_iff]
  constructor
  · rintro ⟨tokens, stop, named, htokens, hquery, helaborate⟩
    obtain ⟨later, hcuts, hlexemes⟩ :=
      (cutsInto_abstraction_iff hparam).mp ⟨tokens, stop, htokens, rfl⟩
    rw [hlexemes] at hquery
    obtain ⟨body, hbody, rfl⟩ := hquery.exists_body
    obtain ⟨t, ht, rfl⟩ := Option.map_eq_some_iff.mp helaborate
    obtain ⟨b, hb, rfl⟩ := Named.elaborate_lam_eq_some.mp ht
    exact ⟨body, b, ⟨later, hcuts, hbody⟩, hb, rfl⟩
  · rintro ⟨tree, b, ⟨later, hcuts, htree⟩, hb, rfl⟩
    refine standsFor_term_iff.mpr ⟨.lam param tree, ⟨_, ?_, .lam htree⟩, ?_⟩
    · exact (cutsInto_abstraction_iff hparam).mpr ⟨later, hcuts, rfl⟩
    · exact Named.elaborate_lam_eq_some.mpr ⟨b, hb, rfl⟩

/-! ### A definition -/

/-- A name that is defined is as good as a name at the far end of the scope, for which its value is
put in afterwards. -/
theorem Named.elaborate_insert {definitions : Definitions}
    (hdefinitions : ∀ name t, definitions.find? name = some t → t.ClosedFrom 0) {value : Term}
    (hvalue : value.ClosedFrom 0) (param : String) (tree : Named) (scope : List String) :
    tree.elaborate (definitions.insert param value) scope
      = (tree.elaborate definitions (scope ++ [param])).map
          (Term.instantiate value · scope.length) := by
  induction tree generalizing scope with
  | var name =>
    have hscope : (scope ++ [param]).idxOf? name
        = (scope.idxOf? name).or (([param].idxOf? name).map (· + scope.length)) :=
      List.findIdx?_append
    rw [elaborate, elaborate, hscope, NameMap.find?_insert]
    cases hindex : scope.idxOf? name with
    | some index =>
      obtain ⟨hlt, -⟩ := List.idxOf?_eq_some_iff.mp hindex
      simp [Term.instantiate, hlt]
    | none =>
      by_cases hname : name = param
      · simp [hname, Term.instantiate, hvalue.lift_eq]
      · cases hfind : definitions.find? name with
        | none => simp [hname, Ne.symm hname]
        | some t =>
          have hclosed := (hdefinitions name t hfind).mono (Nat.zero_le scope.length)
          simp [hname, Ne.symm hname, hclosed.instantiate_eq value]
  | lam binder body ih =>
    rw [elaborate, elaborate, ih (binder :: scope), Option.map_map, Option.map_map]
    rfl
  | app lhs rhs ihl ihr =>
    simp only [elaborate, ihl, ihr]
    cases lhs.elaborate definitions (scope ++ [param]) <;>
      cases rhs.elaborate definitions (scope ++ [param]) <;> rfl

theorem parse_insert_eq_ok_iff {definitions : Definitions}
    (hdefinitions : ∀ name t, definitions.find? name = some t → t.ClosedFrom 0) {value : Term}
    (hvalue : value.ClosedFrom 0) {param expr : String} {t : Term} :
    parse (definitions.insert param value) expr = .ok (.term t) ↔
      ∃ tree b, Derives expr tree ∧ tree.elaborate definitions [param] = some b ∧
        Term.instantiate value b 0 = t := by
  rw [parse_eq_ok_iff, standsFor_term_iff]
  simp only [Named.elaborate_insert hdefinitions hvalue, List.nil_append, Option.map_eq_some_iff,
    List.length_nil, exists_and_left]

/-- **Defining a name is contracting a binder.** Let all that is defined be closed. A line can be
read with a binder of some name in front exactly if it can be read as a term where the name is
defined as some closed value. Then the first is an abstraction under that name, and contracting it
with the value gives the second, with all binder names. -/
theorem definition_contracts_binder {definitions : Definitions}
    (hdefinitions : ∀ name t, definitions.find? name = some t → t.isClosed = true) {param : String}
    (hparam : Token.isWord param = true) {value : Term} (hvalue : value.isClosed = true)
    (expr : String) :
    ((∃ query, parse definitions ("\\" ++ param ++ ". " ++ expr) = .ok query) ↔
      ∃ t, parse (definitions.insert param value) expr = .ok (.term t)) ∧
    ∀ query t, parse definitions ("\\" ++ param ++ ". " ++ expr) = .ok query →
      parse (definitions.insert param value) expr = .ok (.term t) →
      ∃ body, query = .term (.lam param body) ∧ Term.contract value body = .ok t := by
  have hclosed (name : String) (t : Term) (hfind : definitions.find? name = some t) :
      t.ClosedFrom 0 := Term.isClosed_iff.mp (hdefinitions name t hfind)
  simp only [parse_abstraction_eq_ok_iff hparam,
    parse_insert_eq_ok_iff hclosed (Term.isClosed_iff.mp hvalue)]
  constructor
  · constructor
    · rintro ⟨_, tree, b, htree, hb, rfl⟩
      exact ⟨_, tree, b, htree, hb, rfl⟩
    · rintro ⟨_, tree, b, htree, hb, rfl⟩
      exact ⟨_, tree, b, htree, hb, rfl⟩
  · rintro _ _ ⟨tree, b, htree, hb, rfl⟩ ⟨tree', b', htree', hb', rfl⟩
    cases htree.unique htree'
    cases hb.symm.trans hb'
    exact ⟨b, rfl, Term.contract_eq value b⟩

/-- The name is defined already, it is used below a binder, and a nearer binder hides it. -/
theorem definition_contracts_binder_hidden :
    ∃ body t,
      parse (NameMap.empty.insert "x" (.lam "z" (.var 0))) "\\x. x (\\y. x y) (\\x. x)"
        = .ok (.term (.lam "x" body)) ∧
      parse ((NameMap.empty.insert "x" (.lam "z" (.var 0))).insert "x" (.lam "y" (.lam "y" (.var 1))))
        "x (\\y. x y) (\\x. x)" = .ok (.term t) ∧
      Term.contract (.lam "y" (.lam "y" (.var 1))) body = .ok t := by
  have hclosed (name : String) (t : Term)
      (hfind : (NameMap.empty.insert "x" (Term.lam "z" (.var 0))).find? name = some t) :
      t.isClosed = true := by
    rw [NameMap.find?_insert] at hfind
    split at hfind <;> cases hfind
    rfl
  obtain ⟨hiff, hcontract⟩ := definition_contracts_binder hclosed
    (show Token.isWord "x" = true by decide)
    (show (Term.lam "y" (.lam "y" (.var 1))).isClosed = true by decide) "x (\\y. x y) (\\x. x)"
  have hread : parse (NameMap.empty.insert "x" (.lam "z" (.var 0))) "\\x. x (\\y. x y) (\\x. x)"
      = .ok (.term (.lam "x" (.app (.app (.var 0) (.lam "y" (.app (.var 1) (.var 0))))
          (.lam "x" (.var 0))))) := by
    decide +kernel
  obtain ⟨t, ht⟩ := hiff.mp ⟨_, hread⟩
  obtain ⟨body, hbody, heq⟩ := hcontract _ _ hread ht
  exact ⟨body, t, hbody ▸ hread, ht, heq⟩

end CallByValue
