import CallByValue.Proofs.Alike
import CallByValue.Proofs.Parser.Soundness
/-!
# Reading against two sets of definitions

A parser puts terms together from variables, abstractions, applications and the definitions it looks
up. If two sets of definitions give related terms for every name that is read, and the relation
passes through abstraction and application, then reading goes the same way against both, token by
token and fault by fault, and gives related terms.

Everything that is left to read is a rest of `whole`, which holds all the names that can come up.
-/

namespace CallByValue

namespace Term

/-- A relation that holds of terms put together in the same way from related parts. -/
structure Compatible (R : Term → Term → Prop) : Prop where
  var : ∀ index, R (.var index) (.var index)
  lam : ∀ param {body body'}, R body body' → R (.lam param body) (.lam param body')
  app : ∀ {lhs lhs' rhs rhs'}, R lhs lhs' → R rhs rhs' → R (.app lhs rhs) (.app lhs' rhs')

theorem Compatible.eq : Compatible Eq where
  var _ := rfl
  lam param := by
    intro body body' h
    rw [h]
  app := by
    intro lhs lhs' rhs rhs' hl hr
    rw [hl, hr]

end Term

/-- Queries about related terms, with the same name if they define one. -/
def Query.Related (R : Term → Term → Prop) (p q : Query) : Prop :=
  R p.body q.body ∧ q = p.withBody q.body

theorem Query.related_eq_iff {p q : Query} : Query.Related Eq p q ↔ p = q := by
  constructor
  · intro h
    obtain ⟨hbody, hquery⟩ := h
    rw [hquery, ← hbody]
    cases p <;> rfl
  · intro h
    subst h
    refine ⟨rfl, ?_⟩
    cases p <;> rfl

namespace Parser

/-- Two readings stand at the same tokens, a rest of `whole`. -/
def Together (whole tokens tokens' : List Token) : Prop :=
  tokens = tokens' ∧ tokens <:+ whole

theorem Together.tail {whole rest : List Token} {token : Token}
    (h : token :: rest <:+ whole) : Together whole rest rest :=
  ⟨rfl, (List.suffix_cons token rest).trans h⟩

/-! ### Nothing is looked up for a token -/

variable {R : Term → Term → Prop} {expr : String} {definitions other : Definitions}
  {whole tokens : List Token}

theorem fail_alike {α α' : Type} (values : α → α' → Prop) (expected : String)
    (hsuffix : tokens <:+ whole) :
    Alike values (Together whole) (fail ⟨expr, definitions⟩ expected)
      (fail ⟨expr, other⟩ expected) tokens tokens := by
  cases tokens with
  | nil => exact .faults rfl rfl ⟨rfl, hsuffix⟩
  | cons token rest => exact .faults rfl rfl ⟨rfl, hsuffix⟩

theorem expect_alike (kind : TokenKind) (hsuffix : tokens <:+ whole) :
    Alike Eq (Together whole) (expect ⟨expr, definitions⟩ kind) (expect ⟨expr, other⟩ kind)
      tokens tokens := by
  cases tokens with
  | nil => exact .faults rfl rfl ⟨rfl, hsuffix⟩
  | cons token rest =>
    have hrun := expect_cons ⟨expr, definitions⟩ kind token rest
    have hrun' := expect_cons ⟨expr, other⟩ kind token rest
    by_cases hkind : token.kind = kind
    · rw [if_pos hkind] at hrun hrun'
      exact .returns hrun hrun' rfl (.tail hsuffix)
    · rw [if_neg hkind] at hrun hrun'
      exact (fail_alike Eq kind.expectation hsuffix).of_eq hrun hrun'

theorem identifier_alike (hsuffix : tokens <:+ whole) :
    Alike Eq (Together whole) (identifier ⟨expr, definitions⟩) (identifier ⟨expr, other⟩)
      tokens tokens := by
  cases tokens with
  | nil => exact .faults rfl rfl ⟨rfl, hsuffix⟩
  | cons token rest =>
    obtain ⟨lexeme, pos⟩ := token
    cases lexeme with
    | ident name => exact .returns rfl rfl rfl (.tail hsuffix)
    | _ => exact .faults rfl rfl ⟨rfl, hsuffix⟩

theorem accept_alike {p q : Query} (h : Query.Related R p q) (hsuffix : tokens <:+ whole) :
    Alike (Query.Related R) (Together whole) (accept ⟨expr, definitions⟩ p)
      (accept ⟨expr, other⟩ q) tokens tokens := by
  cases tokens with
  | nil => exact .faults rfl rfl ⟨rfl, hsuffix⟩
  | cons token rest =>
    obtain ⟨lexeme, pos⟩ := token
    cases lexeme with
    | eof => exact .returns rfl rfl h ⟨rfl, hsuffix⟩
    | _ => exact .faults rfl rfl ⟨rfl, hsuffix⟩

theorem queryWith_alike {inner inner' : Parser Term}
    (hinner : ∀ tokens, tokens <:+ whole → Alike R (Together whole) inner inner' tokens tokens)
    (h : Terminated whole) :
    Alike (Query.Related R) (Together whole) (queryWith ⟨expr, definitions⟩ inner)
      (queryWith ⟨expr, other⟩ inner') whole whole := by
  -- `make` is what the query is about a term: the term itself, or a definition of some name
  have hread (make : Term → Query) (hmake : ∀ t u, R t u → Query.Related R (make t) (make u))
      {tokens : List Token} (hsuffix : tokens <:+ whole) :
      Alike (Query.Related R) (Together whole) (make <$> inner >>= accept ⟨expr, definitions⟩)
        (make <$> inner' >>= accept ⟨expr, other⟩) tokens tokens := by
    have hmade : Alike (Query.Related R) (Together whole) (inner >>= fun t => pure (make t))
        (inner' >>= fun t => pure (make t)) tokens tokens := by
      apply Alike.bind (hinner tokens hsuffix)
      intro t u rest rest' hrelated hrest
      exact .returns rfl rfl (hmake t u hrelated) hrest
    rw [map_eq_pure_bind, map_eq_pure_bind]
    apply Alike.bind hmade
    intro p q rest rest' hrelated hrest
    obtain ⟨rfl, hrest⟩ := hrest
    exact accept_alike hrelated hrest
  rcases queryWith_cases h with ⟨name, pos, pos₁, rest, rfl, -⟩ | hterm
  · have hrest : rest <:+ ⟨.ident name, pos⟩ :: ⟨.equal, pos₁⟩ :: rest :=
      (List.suffix_cons _ _).trans (List.suffix_cons _ _)
    exact (hread (.definition name) (fun t u hrelated => ⟨hrelated, rfl⟩) hrest).of_eq
      (queryWith_definition ⟨expr, definitions⟩ inner name pos pos₁ rest)
      (queryWith_definition ⟨expr, other⟩ inner' name pos pos₁ rest)
  · exact (hread .term (fun t u hrelated => ⟨hrelated, rfl⟩) List.suffix_rfl).of_eq
      (hterm ⟨expr, definitions⟩ inner) (hterm ⟨expr, other⟩ inner')

/-! ### Terms are put together from related parts -/

variable (hR : Term.Compatible R)

include hR

theorem operands_alike {atom atom' : Parser (Option Term)}
    (hatom : ∀ tokens, tokens <:+ whole →
      Alike (Option.Rel R) (Together whole) atom atom' tokens tokens)
    (bound : Nat) {lhs lhs' : Term} (hlhs : R lhs lhs') (hsuffix : tokens <:+ whole) :
    Alike R (Together whole) (operands atom bound lhs) (operands atom' bound lhs')
      tokens tokens := by
  induction bound generalizing lhs lhs' tokens with
  | zero => exact .faults rfl rfl ⟨rfl, hsuffix⟩
  | succ bound ih =>
    apply Alike.bind (hatom tokens hsuffix)
    intro found found' rest rest' hfound hrest
    obtain ⟨rfl, hrest⟩ := hrest
    cases hfound with
    | none => exact .returns rfl rfl hlhs ⟨rfl, hrest⟩
    | some hrhs => exact ih (hR.app hlhs hrhs) hrest

theorem applicationWith_alike {atom atom' : Parser (Option Term)}
    (hatom : ∀ tokens, tokens <:+ whole →
      Alike (Option.Rel R) (Together whole) atom atom' tokens tokens)
    (hsuffix : tokens <:+ whole) :
    Alike R (Together whole) (applicationWith ⟨expr, definitions⟩ atom)
      (applicationWith ⟨expr, other⟩ atom') tokens tokens := by
  apply Alike.bind (hatom tokens hsuffix)
  intro found found' rest rest' hfound hrest
  obtain ⟨rfl, hrest⟩ := hrest
  cases hfound with
  | none => exact fail_alike R "term" hrest
  | some hlhs => exact (operands_alike hR hatom (rest.length + 1) hlhs hrest).of_eq rfl rfl

/-! ### Names are looked up where they stand -/

variable (hfind : ∀ name pos, ⟨.ident name, pos⟩ ∈ whole →
  Option.Rel R (definitions.find? name) (other.find? name))

include hfind

theorem resolve_alike (scope : List String) {name : String} {pos : Nat}
    (hmem : ⟨.ident name, pos⟩ ∈ whole) (hsuffix : tokens <:+ whole) :
    Alike R (Together whole) (resolve ⟨expr, definitions⟩ scope name pos)
      (resolve ⟨expr, other⟩ scope name pos) tokens tokens := by
  rw [resolve, resolve]
  cases scope.idxOf? name with
  | some index => exact .returns rfl rfl (hR.var index) ⟨rfl, hsuffix⟩
  | none =>
    have hrelated := hfind name pos hmem
    dsimp only
    generalize definitions.find? name = found at hrelated ⊢
    generalize other.find? name = found' at hrelated ⊢
    cases hrelated with
    | none => exact .faults rfl rfl ⟨rfl, hsuffix⟩
    | some hterm => exact .returns rfl rfl hterm ⟨rfl, hsuffix⟩

theorem atomWith_alike {inner inner' : Parser Term} (scope : List String)
    (hinner : ∀ tokens, tokens <:+ whole → Alike R (Together whole) inner inner' tokens tokens)
    (hsuffix : tokens <:+ whole) :
    Alike (Option.Rel R) (Together whole) (atomWith ⟨expr, definitions⟩ inner scope)
      (atomWith ⟨expr, other⟩ inner' scope) tokens tokens := by
  cases tokens with
  | nil => exact .faults rfl rfl ⟨rfl, hsuffix⟩
  | cons token rest =>
    have hrest : rest <:+ whole := (List.suffix_cons token rest).trans hsuffix
    obtain ⟨lexeme, pos⟩ := token
    cases lexeme with
    | lparen =>
      refine .of_eq ?_ (atomWith_lparen _ inner scope pos rest)
        (atomWith_lparen _ inner' scope pos rest)
      apply Alike.bind (hinner rest hrest)
      intro t u rest₁ rest₁' hterm hrest₁
      obtain ⟨rfl, hrest₁⟩ := hrest₁
      apply Alike.bind (expect_alike .rparen hrest₁)
      intro _ _ rest₂ rest₂' _ hrest₂
      exact .returns rfl rfl (.some hterm) hrest₂
    | ident name =>
      refine .of_eq ?_ (atomWith_ident _ inner scope name pos rest)
        (atomWith_ident _ inner' scope name pos rest)
      apply Alike.bind (resolve_alike hR hfind scope (hsuffix.subset List.mem_cons_self) hrest)
      intro t u rest₁ rest₁' hterm hrest₁
      exact .returns rfl rfl (.some hterm) hrest₁
    | _ => exact .returns rfl rfl .none ⟨rfl, hsuffix⟩

theorem termWithin_alike (room : Nat) (scope : List String) (hsuffix : tokens <:+ whole) :
    Alike R (Together whole) (termWithin ⟨expr, definitions⟩ room scope)
      (termWithin ⟨expr, other⟩ room scope) tokens tokens := by
  induction room using room_induction generalizing scope tokens with
  | zero => exact .faults rfl rfl ⟨rfl, hsuffix⟩
  | succ room ih ihInner =>
    cases tokens with
    | nil =>
      exact .faults (termWithin_nil _ room scope) (termWithin_nil _ room scope) ⟨rfl, hsuffix⟩
    | cons token rest =>
      have hrest : rest <:+ whole := (List.suffix_cons token rest).trans hsuffix
      obtain ⟨lexeme, pos⟩ := token
      by_cases hlambda : lexeme = .lambda
      · subst hlambda
        refine .of_eq ?_ (termWithin_lambda _ room scope pos rest)
          (termWithin_lambda _ room scope pos rest)
        apply Alike.bind (identifier_alike hrest)
        intro name name' rest₁ rest₁' hname hrest₁
        obtain ⟨rfl, hrest₁⟩ := hrest₁
        subst hname
        apply Alike.bind (expect_alike .dot hrest₁)
        intro _ _ rest₂ rest₂' _ hrest₂
        obtain ⟨rfl, hrest₂⟩ := hrest₂
        apply Alike.bind (ih (name.1 :: scope) hrest₂)
        intro body body' rest₃ rest₃' hbody hrest₃
        exact .returns rfl rfl (hR.lam name.1 hbody) hrest₃
      · refine .of_eq ?_ (termWithin_of_ne_lambda _ room scope hlambda rest)
          (termWithin_of_ne_lambda _ room scope hlambda rest)
        apply applicationWith_alike hR _ hsuffix
        intro tokens' hsuffix'
        exact atomWith_alike hR hfind scope (fun _ h => ihInner scope h) hsuffix'

end Parser

end CallByValue
