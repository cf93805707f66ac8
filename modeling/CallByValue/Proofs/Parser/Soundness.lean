import CallByValue.Parser
import CallByValue.Proofs.Diagnostic
import CallByValue.Proofs.Ending
import CallByValue.Proofs.Parser.Derivation
import Mathlib.Data.List.Infix
/-!
# What a parser reads is in the grammar

Each production, given tokens that end with the end of input, either reads a front of them that the
grammar derives, and returns the term that its tree stands for, or blames a token or a name. It
never runs out of tokens, since it does not read the last one, nor of operands, since each operand
takes a token. It gives up on the nesting only where the tokens may take all the frames it has, three
for each of them, so a parser with more room than that never does.
-/

namespace CallByValue

namespace Parser

open Grammar

/-! ### Tokens up to the end of input -/

/-- The tokens end with the end of input. It may also stand further in front. -/
def Terminated (tokens : List Token) : Prop :=
  ∃ body last, tokens = body ++ [last] ∧ last.lexeme = .eof

theorem Terminated.exists_cons {tokens : List Token} (h : Terminated tokens) :
    ∃ token rest, tokens = token :: rest := by
  obtain ⟨body, last, rfl, -⟩ := h
  cases body with
  | nil => exact ⟨last, [], rfl⟩
  | cons token body => exact ⟨token, body ++ [last], rfl⟩

theorem Terminated.of_append {front rest : List Token} (h : Terminated (front ++ rest))
    (hfront : ∀ lexeme ∈ front.map Token.lexeme, lexeme ≠ .eof) : Terminated rest := by
  obtain ⟨body, last, heq, hlast⟩ := h
  rcases List.eq_nil_or_concat rest with rfl | ⟨body', last', rfl⟩
  · -- everything was read, so the end of input was
    have hmem : last ∈ front := by
      rw [List.append_nil] at heq
      simp [heq]
    exact absurd hlast (hfront _ (List.mem_map_of_mem hmem))
  · rw [List.concat_eq_append, ← List.append_assoc] at heq
    obtain ⟨-, hend⟩ := List.append_inj' heq rfl
    cases hend
    exact ⟨body', last, List.concat_eq_append, hlast⟩

theorem Terminated.tail {token : Token} {rest : List Token} (h : Terminated (token :: rest))
    (htoken : token.lexeme ≠ .eof) : Terminated rest :=
  Terminated.of_append (show Terminated ([token] ++ rest) from h) (by simpa using htoken)

/-! ### Frames -/

/-- Follows the frames that a term takes: one for the body of an abstraction, and three for a term
in parentheses. -/
@[elab_as_elim]
theorem room_induction {motive : Nat → Prop} (zero : motive 0)
    (succ : ∀ room, motive room → motive (room - 2) → motive (room + 1)) (room : Nat) :
    motive room := by
  induction room using Nat.strong_induction_on with
  | h room ih =>
    cases room with
    | zero => exact zero
    | succ room => exact succ room (ih room (by omega)) (ih (room - 2) (by omega))

/-! ### The two endings -/

variable (source : Source) (scope : List String)

/-- A front of the tokens was read by the given rule of the grammar, as the term that its tree
stands for. -/
def Reads (rule : List Lexeme → Named → Prop) (tokens : List Token) (t : Term)
    (rest : List Token) : Prop :=
  ∃ front tree, tokens = front ++ rest ∧ rule (front.map Token.lexeme) tree ∧
    tree.elaborate source.definitions scope = some t

/-- A fault that blames one of the tokens, or the name that one of them is. -/
inductive Blames (tokens : List Token) : Fault → Prop where
  | token {token : Token} (h : token ∈ tokens) (expected : String) :
      Blames tokens (.diagnostic (.unexpected source.expr expected token.lexeme.described token.pos
        token.lexeme.width))
  | name {name : String} {pos : Nat} (h : ⟨.ident name, pos⟩ ∈ tokens) :
      Blames tokens (.diagnostic (.unbound source.expr name pos))

/-- Reading went wrong and left `rest`: a token or a name is to blame, or the tokens may take all the
frames there are. -/
structure Stops (room : Nat) (tokens : List Token) (fault : Fault) (rest : List Token) : Prop where
  suffix : rest <:+ tokens
  terminated : Terminated rest
  cause : Blames source tokens fault ∨ fault = .depthExceeded ∧ room ≤ 3 * tokens.length

variable {source scope}

theorem Blames.mono {tokens tokens' : List Token} {fault : Fault} (h : Blames source tokens fault)
    (hsuffix : tokens <:+ tokens') : Blames source tokens' fault := by
  cases h with
  | token hmem expected => exact .token (hsuffix.subset hmem) expected
  | name hmem => exact .name (hsuffix.subset hmem)

theorem Blames.ne_depthExceeded {tokens : List Token} {fault : Fault}
    (h : Blames source tokens fault) : fault ≠ .depthExceeded := by
  cases h <;> simp

theorem Stops.mono {room room' : Nat} {tokens tokens' : List Token} {fault : Fault}
    {rest : List Token} (h : Stops source room tokens fault rest) (hsuffix : tokens <:+ tokens')
    (hroom : room ≤ 3 * tokens.length → room' ≤ 3 * tokens'.length) :
    Stops source room' tokens' fault rest := by
  refine ⟨h.suffix.trans hsuffix, h.terminated, h.cause.imp ?_ ?_⟩
  · exact fun hblames => hblames.mono hsuffix
  · exact fun hdepth => ⟨hdepth.1, hroom hdepth.2⟩

theorem Stops.of_suffix {room : Nat} {tokens tokens' : List Token} {fault : Fault}
    {rest : List Token} (h : Stops source room tokens fault rest) (hsuffix : tokens <:+ tokens') :
    Stops source room tokens' fault rest :=
  h.mono hsuffix fun hle => hle.trans (Nat.mul_le_mul_left 3 hsuffix.length_le)

theorem Stops.of_blames {room : Nat} {tokens whole : List Token} {fault : Fault}
    (hterminated : Terminated tokens) (hsuffix : tokens <:+ whole)
    (hfault : Blames source whole fault) : Stops source room whole fault tokens :=
  ⟨hsuffix, hterminated, .inl hfault⟩

theorem Stops.blames {room : Nat} {tokens : List Token} {fault : Fault} {rest : List Token}
    (h : Stops source room tokens fault rest) (hroom : 3 * tokens.length < room) :
    Blames source tokens fault := by
  rcases h.cause with hblames | ⟨-, hle⟩
  · exact hblames
  · omega

section Reads

variable {rule : List Lexeme → Named → Prop} {tokens rest : List Token} {t : Term}

theorem Reads.terminated (hrule : ∀ {lexemes tree}, rule lexemes tree → IsRow lexemes tree)
    (h : Reads source scope rule tokens t rest) (htokens : Terminated tokens) :
    Terminated rest := by
  obtain ⟨front, tree, rfl, hderives, -⟩ := h
  exact htokens.of_append fun lexeme hmem => ((hrule hderives).plain lexeme hmem).2

theorem Reads.length_lt (hrule : ∀ {lexemes tree}, rule lexemes tree → IsRow lexemes tree)
    (h : Reads source scope rule tokens t rest) : rest.length < tokens.length := by
  obtain ⟨front, tree, rfl, hderives, -⟩ := h
  have hfront : front ≠ [] := by simpa using (hrule hderives).ne_nil
  have hpos : 0 < front.length := List.length_pos_iff.mpr hfront
  rw [List.length_append]
  omega

theorem Reads.suffix (h : Reads source scope rule tokens t rest) : rest <:+ tokens := by
  obtain ⟨front, tree, rfl, -, -⟩ := h
  exact ⟨front, rfl⟩

end Reads

/-! ### Single tokens -/

variable {tokens whole : List Token} {room : Nat}

variable (source) in
theorem fail_cons {α : Type} (expected : String) (token : Token) (rest : List Token) :
    (fail source expected : Parser α) (token :: rest)
      = .error (.diagnostic (.unexpected source.expr expected token.lexeme.described token.pos
          token.lexeme.width)) (token :: rest) :=
  rfl

theorem fail_ends {α : Type} (h : Terminated tokens) (hsuffix : tokens <:+ whole)
    (expected : String) (ok : α → List Token → Prop) :
    Ends (fail source expected) tokens ok (Stops source room whole) := by
  obtain ⟨token, rest, rfl⟩ := h.exists_cons
  exact Stops.of_blames h hsuffix (.token (hsuffix.subset List.mem_cons_self) expected)

variable (source) in
theorem expect_cons (kind : TokenKind) (token : Token) (rest : List Token) :
    expect source kind (token :: rest)
      = if token.kind = kind then .ok token rest
        else fail source kind.expectation (token :: rest) := by
  change (if token.kind = kind then (do advance; return token)
    else fail source kind.expectation : Parser Token) (token :: rest) = _
  split <;> rfl

theorem expect_ends (h : Terminated tokens) (hsuffix : tokens <:+ whole) {kind : TokenKind}
    (hkind : kind ≠ .eof) :
    Ends (expect source kind) tokens
      (fun token rest => tokens = token :: rest ∧ token.kind = kind ∧ Terminated rest)
      (Stops source room whole) := by
  obtain ⟨token, rest, rfl⟩ := h.exists_cons
  have hrun := expect_cons source kind token rest
  by_cases htoken : token.kind = kind
  · rw [if_pos htoken] at hrun
    refine .returns hrun ⟨rfl, htoken, h.tail ?_⟩
    intro heof
    apply hkind
    rw [← htoken, Token.kind, heof]
    rfl
  · rw [if_neg htoken] at hrun
    exact .of_eq hrun (fail_ends h hsuffix _ _)

theorem identifier_ends (h : Terminated tokens) (hsuffix : tokens <:+ whole) :
    Ends (identifier source) tokens
      (fun name rest => tokens = ⟨.ident name.1, name.2⟩ :: rest ∧ Terminated rest)
      (Stops source room whole) := by
  obtain ⟨⟨lexeme, pos⟩, rest, rfl⟩ := h.exists_cons
  cases lexeme with
  | ident name =>
    have hrun : identifier source (⟨.ident name, pos⟩ :: rest) = .ok (name, pos) rest := rfl
    exact .returns hrun ⟨rfl, h.tail (by simp)⟩
  | _ => exact Stops.of_blames h hsuffix (.token (hsuffix.subset List.mem_cons_self) _)

variable (source) in
theorem resolve_eq (scope : List String) (name : String) (pos : Int) (tokens : List Token) :
    resolve source scope name pos tokens
      = match (Named.var name).elaborate source.definitions scope with
        | some t => .ok t tokens
        | none => .error (.diagnostic (.unbound source.expr name pos)) tokens := by
  rw [Named.elaborate, resolve]
  cases scope.idxOf? name with
  | some index => rfl
  | none => cases source.definitions.find? name <;> rfl

theorem resolve_ends (h : Terminated tokens) (hsuffix : tokens <:+ whole) {name : String}
    {pos : Nat} (hname : ⟨.ident name, pos⟩ ∈ whole) :
    Ends (resolve source scope name pos) tokens
      (fun t rest => rest = tokens ∧
        (Named.var name).elaborate source.definitions scope = some t)
      (Stops source room whole) := by
  have hrun := resolve_eq source scope name pos tokens
  cases hterm : (Named.var name).elaborate source.definitions scope with
  | some t =>
    rw [hterm] at hrun
    exact .returns hrun ⟨rfl, rfl⟩
  | none =>
    rw [hterm] at hrun
    exact .faults hrun (.of_blames h hsuffix (.name hname))

/-! ### How a term goes on after its first token -/

section Equations

variable (source) (inner : Parser Term) (room : Nat) (scope : List String)

theorem identifier_of_ne_ident {token : Token} (htoken : ∀ name, token.lexeme ≠ .ident name)
    (rest : List Token) :
    identifier source (token :: rest)
      = fail source TokenKind.ident.expectation (token :: rest) := by
  obtain ⟨lexeme, pos⟩ := token
  cases lexeme with
  | ident name => exact absurd rfl (htoken name)
  | _ => rfl

theorem atomWith_lparen (pos : Nat) (rest : List Token) :
    atomWith source inner scope (⟨.lparen, pos⟩ :: rest)
      = (inner >>= fun t => expect source .rparen >>= fun _ => pure (some t)) rest :=
  rfl

theorem atomWith_ident (name : String) (pos : Nat) (rest : List Token) :
    atomWith source inner scope (⟨.ident name, pos⟩ :: rest)
      = (resolve source scope name pos >>= fun t => pure (some t)) rest :=
  rfl

/-- Where too few frames are left for parentheses, none are left for the term in them. -/
theorem termWithin_succ :
    termWithin source (room + 1) scope = (skip .lambda >>= fun marked =>
      if marked then
        identifier source >>= fun name => expect source .dot >>= fun _ =>
          termWithin source room (name.1 :: scope) >>= fun body => pure (.lam name.1 body)
      else applicationWith source (atomWith source (termWithin source (room - 2) scope) scope)) := by
  match room with
  | 0 | 1 | _ + 2 => rfl

theorem termWithin_nil :
    termWithin source (room + 1) scope [] = .error (.defect .outOfTokens) [] := by
  rw [termWithin_succ]
  rfl

theorem termWithin_lambda (pos : Nat) (rest : List Token) :
    termWithin source (room + 1) scope (⟨.lambda, pos⟩ :: rest)
      = (identifier source >>= fun name => expect source .dot >>= fun _ =>
          termWithin source room (name.1 :: scope) >>= fun body =>
            pure (.lam name.1 body)) rest := by
  rw [termWithin_succ]
  rfl

theorem termWithin_of_ne_lambda {token : Token} (htoken : token.lexeme ≠ .lambda)
    (rest : List Token) :
    termWithin source (room + 1) scope (token :: rest)
      = applicationWith source (atomWith source (termWithin source (room - 2) scope) scope)
          (token :: rest) := by
  obtain ⟨lexeme, pos⟩ := token
  rw [termWithin_succ]
  cases lexeme <;> first | rfl | exact absurd rfl htoken

end Equations

/-! ### Atoms and applications -/

variable (source scope) in
/-- What reading an atom gives: its term, or nothing if the first token starts none. -/
def AtomRead (tokens : List Token) (found : Option Term) (rest : List Token) : Prop :=
  match found with
  | some t => Reads source scope IsAtom tokens t rest
  | none => rest = tokens

theorem atomWith_ends {inner : Parser Term}
    (hinner : ∀ tokens, Terminated tokens →
      Ends inner tokens (Reads source scope IsTerm tokens) (Stops source (room - 2) tokens))
    (h : Terminated tokens) :
    Ends (atomWith source inner scope) tokens (AtomRead source scope tokens)
      (Stops source (room + 1) tokens) := by
  obtain ⟨⟨lexeme, pos⟩, rest, rfl⟩ := h.exists_cons
  have hsuffix : rest <:+ ⟨lexeme, pos⟩ :: rest := List.suffix_cons _ _
  cases lexeme with
  | lparen =>
    have hrest : Terminated rest := h.tail (by simp)
    refine .of_eq (atomWith_lparen source inner scope pos rest) (.bind ((hinner rest hrest).weaken ?_) ?_)
    · intro fault rest' hstops
      apply hstops.mono hsuffix
      intro hle
      rw [List.length_cons]
      omega
    · intro t rest' hread
      have hrest' : Terminated rest' := hread.terminated IsTerm.isRow hrest
      refine .bind (expect_ends hrest' (hread.suffix.trans hsuffix) (by simp)) ?_
      rintro ⟨lexeme', pos'⟩ rest'' ⟨rfl, hkind, -⟩
      obtain ⟨front, tree, rfl, hderives, hterm⟩ := hread
      refine ⟨⟨.lparen, pos⟩ :: front ++ [⟨lexeme', pos'⟩], tree, by simp, ?_, hterm⟩
      have hrparen : lexeme' = .rparen := by
        cases lexeme' <;> first | rfl | cases hkind
      rw [hrparen, List.map_append]
      exact .paren hderives
  | ident name =>
    have hrest : Terminated rest := h.tail (by simp)
    refine .of_eq (atomWith_ident source inner scope name pos rest) ?_
    refine .bind (resolve_ends hrest hsuffix List.mem_cons_self) ?_
    rintro t rest' ⟨rfl, hname⟩
    exact ⟨[⟨.ident name, pos⟩], .var name, rfl, .ident, hname⟩
  | _ => exact rfl

theorem Reads.app {lhs rhs : Term} {rest : List Token}
    (hl : Reads source scope IsApplication whole lhs tokens)
    (hr : Reads source scope IsAtom tokens rhs rest) :
    Reads source scope IsApplication whole (.app lhs rhs) rest := by
  obtain ⟨left, l, rfl, hleft, hlhs⟩ := hl
  obtain ⟨right, r, rfl, hright, hrhs⟩ := hr
  refine ⟨left ++ right, .app l r, by simp, ?_, ?_⟩
  · rw [List.map_append]
    exact .app hleft hright
  · simp [Named.elaborate, hlhs, hrhs]

section Application

variable {atom : Parser (Option Term)}
  (hatom : ∀ tokens, Terminated tokens →
    Ends atom tokens (AtomRead source scope tokens) (Stops source room tokens))

include hatom

/-- The invariant of the loop over operands is that what came before `tokens` reads as `lhs`. -/
theorem operands_ends (fuel : Nat) {lhs : Term} (h : Terminated tokens)
    (hfuel : tokens.length < fuel) (hread : Reads source scope IsApplication whole lhs tokens) :
    Ends (operands atom fuel lhs) tokens (Reads source scope IsApplication whole)
      (Stops source room whole) := by
  induction fuel generalizing lhs tokens with
  | zero => omega
  | succ fuel ih =>
    refine .bind ((hatom tokens h).weaken ?_) ?_
    · intro fault rest hstops
      exact hstops.of_suffix hread.suffix
    · intro found rest hfound
      cases found with
      | none =>
        cases (hfound : rest = tokens)
        exact hread
      | some rhs =>
        have hoperand : Reads source scope IsAtom tokens rhs rest := hfound
        have hlt := hoperand.length_lt IsAtom.isRow
        exact ih (hoperand.terminated IsAtom.isRow h) (by omega) (hread.app hoperand)

theorem applicationWith_ends (h : Terminated tokens) :
    Ends (applicationWith source atom) tokens (Reads source scope IsApplication tokens)
      (Stops source room tokens) := by
  refine .bind (hatom tokens h) ?_
  intro found rest hfound
  cases found with
  | none =>
    cases (hfound : rest = tokens)
    exact fail_ends h List.suffix_rfl _ _
  | some lhs =>
    have hoperator : Reads source scope IsAtom tokens lhs rest := hfound
    obtain ⟨front, tree, htokens, hderives, hterm⟩ := id hoperator
    have hread : Reads source scope IsApplication tokens lhs rest :=
      ⟨front, tree, htokens, .atom hderives, hterm⟩
    have hrest := hoperator.terminated IsAtom.isRow h
    exact operands_ends hatom (rest.length + 1) hrest (by omega) hread

end Application

/-! ### Terms -/

theorem termWithin_ends (room : Nat) (scope : List String) (h : Terminated tokens) :
    Ends (termWithin source room scope) tokens (Reads source scope IsTerm tokens)
      (Stops source room tokens) := by
  induction room using room_induction generalizing scope tokens with
  | zero => exact ⟨List.suffix_rfl, h, .inr ⟨rfl, Nat.zero_le _⟩⟩
  | succ room ih ihInner =>
    obtain ⟨⟨lexeme, pos⟩, rest, rfl⟩ := h.exists_cons
    by_cases hlambda : lexeme = .lambda
    · subst hlambda
      have hrest : Terminated rest := h.tail (by simp)
      refine .of_eq (termWithin_lambda source room scope pos rest) ?_
      refine .bind (identifier_ends hrest (List.suffix_cons _ _)) ?_
      rintro ⟨param, pos₁⟩ rest₁ ⟨rfl, hrest₁⟩
      have hsuffix : rest₁ <:+ ⟨.lambda, pos⟩ :: ⟨.ident param, pos₁⟩ :: rest₁ :=
        (List.suffix_cons _ _).trans (List.suffix_cons _ _)
      refine .bind (expect_ends hrest₁ hsuffix (by simp)) ?_
      rintro ⟨lexeme₂, pos₂⟩ rest₂ ⟨rfl, hkind, hrest₂⟩
      refine .bind ((ih (param :: scope) hrest₂).weaken ?_) ?_
      · intro fault rest₃ hstops
        apply hstops.mono ((List.suffix_cons _ _).trans hsuffix)
        intro hle
        simp only [List.length_cons]
        omega
      · rintro body rest₃ ⟨front, tree, rfl, hderives, hterm⟩
        have hdot : lexeme₂ = .dot := by
          cases lexeme₂ <;> first | rfl | cases hkind
        subst hdot
        exact ⟨⟨.lambda, pos⟩ :: ⟨.ident param, pos₁⟩ :: ⟨.dot, pos₂⟩ :: front, .lam param tree,
          rfl, .lam hderives, by simp [Named.elaborate, hterm]⟩
    · have happlication := applicationWith_ends
        (fun tokens' h' => atomWith_ends (fun tokens'' h'' => ihInner scope h'') h') h
      refine .of_eq (termWithin_of_ne_lambda source room scope hlambda rest) ?_
      refine happlication.imp ?_
      rintro t rest₁ ⟨front, tree, htokens, hderives, hterm⟩
      exact ⟨front, tree, htokens, .application hderives, hterm⟩

/-! ### Queries -/

variable (source) in
/-- A front of the tokens was read as a query. -/
def QueryReads (tokens : List Token) (query : Query) (rest : List Token) : Prop :=
  ∃ front named, tokens = front ++ rest ∧ IsQuery (front.map Token.lexeme) named ∧
    named.elaborate source.definitions = some query

variable (source) in
theorem definitionWith?_equal (inner : Parser Term) (name : String) (pos pos₁ : Nat)
    (rest : List Token) :
    definitionWith? source inner (⟨.ident name, pos⟩ :: ⟨.equal, pos₁⟩ :: rest)
      = (some <$> Query.definition name <$> inner) rest := by
  let start : List Token := ⟨.ident name, pos⟩ :: ⟨.equal, pos₁⟩ :: rest
  have hread : definitionWith source inner start
      = (inner >>= fun body => pure (some (Query.definition name body))) rest := rfl
  refine (bind_eq_of_eq_ok _ (rfl : next .ident start = .ok true start)).trans ?_
  refine (bind_eq_of_eq_ok _ rfl).trans ?_
  cases hrun : inner rest with
  | ok body rest' =>
    rw [bind_eq_of_eq_ok _ hrun] at hread
    refine (bind_eq_of_eq_ok _ hread).trans ?_
    simp only [Functor.map, EStateM.map, hrun]
    rfl
  | error fault rest' =>
    rw [bind_eq_of_eq_error _ hrun] at hread
    refine (bind_eq_of_eq_error _ hread).trans ?_
    simp only [Functor.map, EStateM.map, hrun]

variable (source) in
theorem definitionWith?_of_ne_equal (inner : Parser Term) (name : String) (pos : Nat)
    {token : Token} (htoken : token.lexeme ≠ .equal) (rest : List Token) :
    definitionWith? source inner (⟨.ident name, pos⟩ :: token :: rest)
      = .ok none (⟨.ident name, pos⟩ :: token :: rest) := by
  obtain ⟨lexeme, pos₁⟩ := token
  cases lexeme <;> first | rfl | exact absurd rfl htoken

variable (source) in
/-- Accepts a query that was read if the end of input follows. -/
def accept (query : Query) : Parser Query := do
  if ← next .eof then return query else fail source "end of input"

variable (source) in
theorem queryWith_definition (inner : Parser Term) (name : String) (pos pos₁ : Nat)
    (rest : List Token) :
    queryWith source inner (⟨.ident name, pos⟩ :: ⟨.equal, pos₁⟩ :: rest)
      = (Query.definition name <$> inner >>= accept source) rest := by
  simp only [queryWith, bind, EStateM.bind, definitionWith?_equal, Functor.map, EStateM.map]
  cases inner rest <;> rfl

theorem queryWith_cases (h : Terminated tokens) :
    (∃ name pos pos₁ rest, tokens = ⟨.ident name, pos⟩ :: ⟨.equal, pos₁⟩ :: rest ∧
      Terminated rest) ∨
    ∀ source inner,
      queryWith source inner tokens = (Query.term <$> inner >>= accept source) tokens := by
  obtain ⟨⟨lexeme, pos⟩, rest, rfl⟩ := h.exists_cons
  cases lexeme with
  | ident name =>
    have hrest := h.tail (by simp)
    obtain ⟨⟨lexeme₁, pos₁⟩, rest₁, rfl⟩ := hrest.exists_cons
    by_cases hequal : lexeme₁ = .equal
    · subst hequal
      exact .inl ⟨name, pos, pos₁, rest₁, rfl, hrest.tail (by simp)⟩
    · apply Or.inr
      intro source inner
      exact bind_eq_of_eq_ok _ (definitionWith?_of_ne_equal source inner name pos hequal rest₁)
  | _ => exact .inr fun _ _ => rfl

theorem accept_ends {query : Query} {rest : List Token}
    (hread : QueryReads source tokens query rest) (hrest : Terminated rest) :
    Ends (accept source query) rest
      (fun query rest => QueryReads source tokens query rest ∧
        ∃ eof later, rest = eof :: later ∧ eof.lexeme = .eof)
      (Stops source room tokens) := by
  obtain ⟨⟨lexeme, pos⟩, later, rfl⟩ := hrest.exists_cons
  have hsuffix : ⟨lexeme, pos⟩ :: later <:+ tokens := by
    obtain ⟨front, named, rfl, -, -⟩ := hread
    exact ⟨front, rfl⟩
  cases lexeme with
  | eof => exact ⟨hread, ⟨.eof, pos⟩, later, rfl, rfl⟩
  | _ => exact Stops.of_blames hrest hsuffix (.token (hsuffix.subset List.mem_cons_self) _)

theorem queryWith_ends {inner : Parser Term}
    (hinner : ∀ tokens, Terminated tokens →
      Ends inner tokens (Reads source [] IsTerm tokens) (Stops source room tokens))
    (h : Terminated tokens) :
    Ends (queryWith source inner) tokens
      (fun query rest => QueryReads source tokens query rest ∧
        ∃ eof later, rest = eof :: later ∧ eof.lexeme = .eof)
      (Stops source room tokens) := by
  rcases queryWith_cases h with ⟨name, pos, pos₁, rest, rfl, hrest⟩ | hterm
  · have hsuffix : rest <:+ ⟨.ident name, pos⟩ :: ⟨.equal, pos₁⟩ :: rest :=
      (List.suffix_cons _ _).trans (List.suffix_cons _ _)
    have hbody := (hinner rest hrest).weaken fun fault rest₁ hstops =>
      hstops.of_suffix hsuffix
    refine .of_eq (queryWith_definition source inner name pos pos₁ rest) (hbody.map.bind ?_)
    rintro query rest₁ ⟨body, rfl, hread⟩
    have hrest₁ : Terminated rest₁ := hread.terminated IsTerm.isRow hrest
    obtain ⟨front, tree, rfl, hderives, hbody⟩ := hread
    refine accept_ends ⟨⟨.ident name, pos⟩ :: ⟨.equal, pos₁⟩ :: front, ⟨some name, tree⟩, rfl,
      .definition hderives, ?_⟩ hrest₁
    rw [NamedQuery.elaborate, hbody, Option.map_some]
  · refine .of_eq (hterm source inner) ((hinner tokens h).map.bind ?_)
    rintro query rest ⟨t, rfl, hread⟩
    have hrest : Terminated rest := hread.terminated IsTerm.isRow h
    obtain ⟨front, tree, rfl, hderives, hbody⟩ := hread
    refine accept_ends ⟨front, ⟨none, tree⟩, rfl, .term hderives, ?_⟩ hrest
    rw [NamedQuery.elaborate, hbody, Option.map_some]

end Parser

end CallByValue
