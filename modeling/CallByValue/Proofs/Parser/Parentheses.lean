import CallByValue.Proofs.Parser.Acceptance
import CallByValue.Proofs.Parser.Derivation
import CallByValue.Proofs.Parser.Enclosing
/-!
# The parentheses of a line that is read

A row of lexemes that the grammar derives is balanced, whichever rule derives it. The lexer neither
drops a parenthesis nor makes one up, so the parentheses of a line are those of its lexemes, in the
same order. It follows that a line that is read opens as many parentheses as it closes, and that
nowhere along it more of them are closed than were opened: a count of characters, with no knowledge
of the grammar, never takes it for a line that goes on.
-/

namespace CallByValue

namespace Grammar

/-! ### Derived rows -/

theorem Balanced.uniform : Uniform fun lexemes _ => Balanced lexemes where
  lam := by
    intro param lexemes body ih
    have hbinder : Balanced [.lambda, .ident param, .dot] :=
      balanced_of_notMem (by simp) (by simp)
    exact hbinder.append ih
  app := by
    intro left right lhs rhs ihl ihr
    exact ihl.append ihr
  ident := balanced_of_notMem (by simp) (by simp)
  paren := by
    intro lexemes tree ih
    exact ih.paren

theorem IsQuery.balanced {lexemes : List Lexeme} {named : NamedQuery} (h : IsQuery lexemes named) :
    Balanced lexemes := by
  cases h with
  | @definition name _ _ h =>
    have hfront : Balanced [.ident name, .equal] := balanced_of_notMem (by simp) (by simp)
    exact hfront.append (h.uniform Balanced.uniform)
  | term h => exact h.uniform Balanced.uniform

theorem IsQuery.ne_nil {lexemes : List Lexeme} {named : NamedQuery} (h : IsQuery lexemes named) :
    lexemes ≠ [] := by
  cases h with
  | definition h => exact List.cons_ne_nil _ _
  | term h => exact h.isRow.ne_nil

end Grammar

/-! ### Characters -/

namespace Text

def isParen (c : Char) : Bool :=
  c = '(' || c = ')'

theorem isParen_iff {c : Char} : isParen c = true ↔ c = '(' ∨ c = ')' := by
  simp [isParen]

theorem count_filter_isParen {c : Char} (hc : isParen c = true) (cs : List Char) :
    (cs.filter isParen).count c = cs.count c :=
  List.count_filter hc

end Text

namespace Lexeme

/-- The parenthesis that a lexeme is, if it is one. -/
def paren? : Lexeme → Option Char
  | .lparen => some '('
  | .rparen => some ')'
  | _ => none

theorem count_paren? (row : List Lexeme) :
    (row.filterMap paren?).count '(' = row.count .lparen ∧
      (row.filterMap paren?).count ')' = row.count .rparen := by
  induction row with
  | nil => exact ⟨rfl, rfl⟩
  | cons lexeme row ih => cases lexeme <;> simp [List.filterMap_cons, paren?, ih]

end Lexeme

namespace Token

variable {pos : Nat} {cs : List Char} {tokens : List Token}

theorem isParen_eq_false_of_isBlank {c : Char} (h : Text.isBlank c = true) :
    Text.isParen c = false := by
  rw [Bool.eq_false_iff, ne_eq, Text.isParen_iff]
  rintro (rfl | rfl) <;> exact absurd h (by decide)

theorem isParen_eq_false_of_isLetter {c : Char} (h : isLetter c = true) :
    Text.isParen c = false := by
  rw [Bool.eq_false_iff, ne_eq, Text.isParen_iff]
  rintro (rfl | rfl) <;> exact absurd h (by decide)

theorem filter_isParen_mark {c : Char} {lexeme : Lexeme} (h : c ∈ lexeme.marks) :
    [c].filter Text.isParen = lexeme.paren?.toList := by
  cases lexeme with
  | lambda =>
    simp only [Lexeme.marks, List.mem_cons, List.not_mem_nil, or_false] at h
    rcases h with rfl | rfl <;> rfl
  | ident name => cases h
  | eof => cases h
  | _ =>
    cases List.mem_singleton.mp h
    rfl

theorem Cuts.filterMap_paren? (h : Cuts pos cs tokens) :
    (tokens.map lexeme).filterMap Lexeme.paren? = cs.filter Text.isParen := by
  induction h with
  | nil pos => rfl
  | blank hblank _ ih =>
    rw [List.filter_cons_of_neg (by simp [isParen_eq_false_of_isBlank hblank]), ih]
  | @mark pos c cs lexeme tokens hmark _ ih =>
    show _ = ([c] ++ cs).filter Text.isParen
    rw [List.filter_append, filter_isParen_mark hmark, ← ih, List.map_cons, List.filterMap_cons]
    cases lexeme.paren? <;> rfl
  | @word pos name cs tokens hword _ _ ih =>
    have hnone : name.toList.filter Text.isParen = [] := by
      rw [List.filter_eq_nil_iff]
      intro c hc
      simp [isParen_eq_false_of_isLetter ((isWord_iff.mp hword).2 c hc)]
    rw [List.filter_append, hnone, List.nil_append, ← ih]
    rfl

/-- Along the characters as many parentheses are opened and closed as along the lexemes. -/
theorem Cuts.exists_isPrefix (h : Cuts pos cs tokens) {front : List Char} (hfront : front <+: cs) :
    ∃ row, row <+: tokens.map lexeme ∧ row.count .lparen = front.count '(' ∧
      row.count .rparen = front.count ')' := by
  have hparens := hfront.filter Text.isParen
  rw [← h.filterMap_paren?, List.prefix_filterMap_iff] at hparens
  obtain ⟨row, hrow, heq⟩ := hparens
  obtain ⟨hopened, hclosed⟩ := Lexeme.count_paren? row
  rw [← heq] at hopened hclosed
  refine ⟨row, hrow, ?_, ?_⟩
  · rw [← hopened, Text.count_filter_isParen rfl]
  · rw [← hclosed, Text.count_filter_isParen rfl]

theorem Cuts.count_eq (h : Cuts pos cs tokens) :
    (tokens.map lexeme).count .lparen = cs.count '(' ∧
      (tokens.map lexeme).count .rparen = cs.count ')' := by
  obtain ⟨hopened, hclosed⟩ := Lexeme.count_paren? (tokens.map lexeme)
  rw [h.filterMap_paren?, Text.count_filter_isParen rfl] at hopened hclosed
  exact ⟨hopened.symm, hclosed.symm⟩

end Token

/-! ### Lines -/

theorem standsFor_iff {definitions : Definitions} {expr : String} {query : Query} :
    Grammar.StandsFor definitions expr query ↔
      ∃ lexemes named, CutsInto expr lexemes ∧ Grammar.IsQuery lexemes named ∧
        named.elaborate definitions = some query := by
  constructor
  · rintro ⟨tokens, stop, named, htokens, hquery, helaborate⟩
    exact ⟨tokens.map Token.lexeme, named, ⟨tokens, stop, htokens, rfl⟩, hquery, helaborate⟩
  · rintro ⟨_, named, ⟨tokens, stop, htokens, rfl⟩, hquery, helaborate⟩
    exact ⟨tokens, stop, named, htokens, hquery, helaborate⟩

/-- A line that is read closes what it opens, and nothing before it is opened. -/
theorem parens_of_parse {definitions : Definitions} {expr : String} {query : Query}
    (h : parse definitions expr = .ok query) :
    (∀ front, front <+: expr.toList → front.count ')' ≤ front.count '(') ∧
      expr.toList.count ')' = expr.toList.count '(' := by
  obtain ⟨_, named, ⟨tokens, stop, htokens, rfl⟩, hquery, -⟩ :=
    standsFor_iff.mp (standsFor_of_parse h)
  have hcuts := cuts_of_tokenize htokens
  have hend : Grammar.Balanced [.eof] := Grammar.balanced_of_notMem (by simp) (by simp)
  have hbalanced : Grammar.Balanced ((tokens ++ [Token.mk .eof stop]).map Token.lexeme) := by
    rw [List.map_append]
    exact hquery.balanced.append hend
  constructor
  · intro front hfront
    obtain ⟨row, hrow, hopened, hclosed⟩ := hcuts.exists_isPrefix hfront
    rw [← hopened, ← hclosed]
    exact hbalanced.staysOpen row hrow
  · obtain ⟨hopened, hclosed⟩ := hcuts.count_eq
    rw [← hopened, ← hclosed]
    exact hbalanced.count_eq

end CallByValue
