import CallByValue.Proofs.Parser.Offence
import Mathlib.Data.Nat.Find
/-!
# The leftmost offence is reported

Every production of the parser goes on from a place that was reached without an offence. It moves over
tokens that do not offend, to another such place, or it blames the first token that does. Behind a
term the enclosing binders are those inside the term as well, but behind an atom they are what they
were in front of it: the parentheses of an atom are balanced, and no binder reaches out of them.
-/

namespace CallByValue

open Grammar

theorem Named.elaborate_var_eq_none_iff {definitions : Definitions} {scope : List String}
    {name : String} : (Named.var name).elaborate definitions scope = none ↔
      name ∉ scope ∧ definitions.find? name = none := by
  rw [← List.idxOf?_eq_none_iff, Named.elaborate]
  cases scope.idxOf? name <;> simp

namespace Parser

variable {line : Line} {front tokens rest : List Token} {place : Place} {depth : Nat}
  {scope : List String}

variable (line) in
/-- Work on the tokens ends as `ok` says, or blames the first token of the line that offends. -/
abbrev Proceeds {α : Type} (work : Parser α) (tokens : List Token)
    (ok : α → List Token → Prop) : Prop :=
  Ends work tokens ok fun fault _ => line.BlamesFirst fault

/-! ### Single tokens -/

theorem fail_proceeds {α : Type} {ok : α → List Token → Prop} (h : Reached line front tokens place)
    (expected : String)
    (hnext : ∀ token rest, tokens = token :: rest → place.next token.kind = none) :
    Proceeds line (fail line.source expected) tokens ok := by
  cases tokens with
  | nil => exact .faults rfl (line.blamesFirst_of_ne (by simp))
  | cons token rest =>
    apply Ends.faults (fail_cons line.source expected token rest)
    exact h.blames_token (hnext token rest rfl) rfl rfl

theorem expect_proceeds (lexeme : Lexeme) (hident : ∀ name, lexeme ≠ .ident name) {place' : Place}
    (h : Reached line front tokens place) (hnext : place.next lexeme.kind = some place')
    (hother : ∀ token rest, tokens = token :: rest → token.kind ≠ lexeme.kind →
      place.next token.kind = none) :
    Proceeds line (expect line.source lexeme.kind) tokens
      (fun _ rest => ∃ pos, Reached line (front ++ [⟨lexeme, pos⟩]) rest place') := by
  cases tokens with
  | nil => exact .faults rfl (line.blamesFirst_of_ne (by simp))
  | cons token rest =>
    have hrun := expect_cons line.source lexeme.kind token rest
    by_cases htoken : token.kind = lexeme.kind
    · rw [if_pos htoken] at hrun
      obtain ⟨lexeme', pos⟩ := token
      have hlexeme : lexeme' = lexeme := by
        cases lexeme with
        | ident name => exact absurd rfl (hident name)
        | _ => cases lexeme' <;> first | rfl | cases htoken
      subst hlexeme
      refine .returns hrun ⟨pos, h.next hnext ?_⟩
      intro name hname
      exact absurd hname (hident name)
    · rw [if_neg htoken] at hrun
      apply Ends.of_eq hrun
      apply fail_proceeds h
      intro token' rest' heq
      cases heq
      exact hother token rest rfl htoken

theorem identifier_proceeds (h : Reached line front tokens ⟨.binder, depth⟩) :
    Proceeds line (identifier line.source) tokens
      (fun name rest => Reached line (front ++ [⟨.ident name.1, name.2⟩]) rest ⟨.dot, depth⟩) := by
  cases tokens with
  | nil => exact .faults rfl (line.blamesFirst_of_ne (by simp))
  | cons token rest =>
    obtain ⟨lexeme, pos⟩ := token
    cases lexeme with
    | ident name =>
      refine .returns (rfl : identifier line.source _ = .ok (name, pos) rest) (h.next rfl ?_)
      intro name' _
      exact .inl rfl
    | _ =>
      apply Ends.of_eq (identifier_of_ne_ident line.source (by simp) rest)
      apply fail_proceeds h
      intro token rest' heq
      cases heq
      rfl

/-! ### What is in scope -/

variable (line) in
/-- The scope holds what the enclosing binders bind. -/
def InScope (front : List Token) (scope : List String) : Prop :=
  ∀ name, name ∈ scope ↔ line.Binds front name

variable (line) in
theorem inScope_start : InScope line [] [] := by
  intro name
  have hnone : ¬ line.Binds [] name := by
    apply not_boundAfter_of_notMem
    obtain ⟨source, lead, body, leads⟩ := line
    cases leads <;> simp
  simpa using hnone

theorem Reached.inScope_append (h : Reached line front tokens place)
    (hplace : place.stage ≠ .binder) (hscope : InScope line front scope) {row : List Token}
    (hrow : StaysOpen (row.map Token.lexeme)) {params : List String}
    (hparams : ∀ name, BoundAfter (row.map Token.lexeme) name ↔ name ∈ params) :
    InScope line (front ++ row) (params ++ scope) := by
  intro name
  have hlast : ((line.lead ++ front).map Token.lexeme).getLast? ≠ some .lambda := by
    intro hlast
    exact hplace (h.getLast?_iff.mp hlast)
  rw [Line.Binds, ← List.append_assoc, List.map_append, boundAfter_append hlast hrow, hparams,
    List.mem_append, hscope, Line.Binds, or_comm]

theorem Reached.inScope_append_closed (h : Reached line front tokens place)
    (hplace : place.stage ≠ .binder) (hscope : InScope line front scope) {row : List Token}
    (hrow : StaysOpen (row.map Token.lexeme))
    (hclosed : ∀ name, ¬ BoundAfter (row.map Token.lexeme) name) :
    InScope line (front ++ row) scope := by
  have hparams (name : String) : BoundAfter (row.map Token.lexeme) name ↔ name ∈ [] :=
    ⟨fun hbound => absurd hbound (hclosed name), nofun⟩
  exact h.inScope_append hplace hscope hrow hparams

theorem Reached.inScope_token (h : Reached line front tokens place)
    (hplace : place.stage ≠ .binder) (hscope : InScope line front scope) {token : Token}
    (hlambda : token.lexeme ≠ .lambda) (hrparen : token.lexeme ≠ .rparen) :
    InScope line (front ++ [token]) scope := by
  apply h.inScope_append_closed hplace hscope
  · exact staysOpen_of_notMem (by simpa using hrparen.symm)
  · exact not_boundAfter_of_notMem (by simpa using hlambda.symm)

theorem Reached.inScope_binder (h : Reached line front tokens ⟨.term, depth⟩)
    (hscope : InScope line front scope) (param : String) (pos pos₁ pos₂ : Nat) :
    InScope line (front ++ [⟨.lambda, pos⟩] ++ [⟨.ident param, pos₁⟩] ++ [⟨.dot, pos₂⟩])
      (param :: scope) := by
  have hparams (name : String) :
      BoundAfter [.lambda, .ident param, .dot] name ↔ name ∈ [param] := by
    rw [boundAfter_binder_iff, List.mem_singleton]
  have hopen : StaysOpen [.lambda, .ident param, .dot] := staysOpen_of_notMem (by simp)
  have hrow : InScope line (front ++ [⟨.lambda, pos⟩, ⟨.ident param, pos₁⟩, ⟨.dot, pos₂⟩])
      ([param] ++ scope) := by
    apply h.inScope_append nofun hscope
    · exact hopen
    · exact hparams
  simpa using hrow

/-! ### Atoms and applications -/

variable (line) in
/-- A row with balanced parentheses was read, and no other atom follows. -/
def RowRead (front : List Token) (depth : Nat) (rest : List Token) : Prop :=
  ∃ row, Balanced (row.map Token.lexeme) ∧ StartsNoAtom rest ∧
    Reached line (front ++ row) rest ⟨.row, depth⟩

variable (line) in
/-- What reading an atom gives: a row that leaves the scope as it was, or nothing if none starts. -/
def AtomFound (scope : List String) (front tokens : List Token) (depth : Nat)
    (found : Option Term) (rest : List Token) : Prop :=
  match found with
  | some _ => ∃ row, Balanced (row.map Token.lexeme) ∧ InScope line (front ++ row) scope ∧
      Reached line (front ++ row) rest ⟨.row, depth⟩
  | none => rest = tokens ∧ StartsNoAtom tokens

/-- Behind a row of atoms, inside parentheses and outside, one token may come that starts no other
atom. -/
theorem StartsNoAtom.next_row {token : Token} (h : StartsNoAtom (token :: rest)) :
    (∀ depth, token.kind ≠ .rparen → Place.next ⟨.row, depth + 1⟩ token.kind = none) ∧
      (token.kind ≠ .eof → Place.next ⟨.row, 0⟩ token.kind = none) := by
  obtain ⟨token', rest', heq, hlparen, hident⟩ := h
  cases heq
  obtain ⟨lexeme, pos⟩ := token
  cases lexeme with
  | lparen => exact absurd rfl hlparen
  | ident name => exact absurd rfl (hident name)
  | rparen => exact ⟨fun _ h => absurd rfl h, fun _ => rfl⟩
  | eof => exact ⟨fun _ _ => rfl, fun h => absurd rfl h⟩
  | _ => exact ⟨fun _ _ => rfl, fun _ => rfl⟩

section Atoms

variable {stage : Stage} (hstage : stage.TakesAtom)

include hstage

theorem Reached.atomFound_paren (h : Reached line front tokens ⟨stage, depth⟩)
    (hscope : InScope line front scope) {row : List Token} {pos pos₁ : Nat}
    (hrow : Balanced (row.map Token.lexeme))
    (hreached : Reached line (front ++ [⟨.lparen, pos⟩] ++ row ++ [⟨.rparen, pos₁⟩]) rest
      ⟨.row, depth⟩) (t : Term) : AtomFound line scope front tokens depth (some t) rest := by
  let whole : List Token := ⟨.lparen, pos⟩ :: row ++ [⟨.rparen, pos₁⟩]
  have hlexemes : whole.map Token.lexeme = .lparen :: row.map Token.lexeme ++ [.rparen] := by
    simp [whole]
  have hbalanced : Balanced (whole.map Token.lexeme) := by
    rw [hlexemes]
    exact hrow.paren
  refine ⟨whole, hbalanced, ?_, ?_⟩
  · apply h.inScope_append_closed hstage.ne_binder hscope hbalanced.staysOpen
    rw [hlexemes]
    exact not_boundAfter_paren hrow
  · simpa [whole] using hreached

theorem resolve_proceeds {name : String} {pos : Nat} (hscope : InScope line front scope)
    (h : Reached line front (⟨.ident name, pos⟩ :: rest) ⟨stage, depth⟩) :
    Proceeds line (resolve line.source scope name pos) rest
      (fun t later =>
        AtomFound line scope front (⟨.ident name, pos⟩ :: rest) depth (some t) later) := by
  have hrun := resolve_eq line.source scope name pos rest
  cases hterm : (Named.var name).elaborate line.source.definitions scope with
  | some t =>
    rw [hterm] at hrun
    have hresolves : Resolves line front ⟨stage, depth⟩ ⟨.ident name, pos⟩ := by
      intro name' hname
      cases hname
      apply Or.inr
      by_contra hneither
      obtain ⟨hbound, hfind⟩ := not_or.mp hneither
      rw [← hscope] at hbound
      cases hterm.symm.trans (Named.elaborate_var_eq_none_iff.mpr ⟨hbound, not_not.mp hfind⟩)
    refine .returns hrun ⟨[⟨.ident name, pos⟩], ?_, ?_, ?_⟩
    · exact balanced_of_notMem (by simp) (by simp)
    · exact h.inScope_token hstage.ne_binder hscope (by simp) (by simp)
    · exact h.next (hstage.next_ident depth) hresolves
  | none =>
    rw [hterm] at hrun
    obtain ⟨hscope', hfind⟩ := Named.elaborate_var_eq_none_iff.mp hterm
    rw [hscope] at hscope'
    have hnext : (Place.next ⟨stage, depth⟩ .ident).isSome = true := by
      rw [hstage.next_ident depth]
      rfl
    exact .faults hrun (h.blames_name hnext hstage.ne_binder hscope' hfind rfl rfl)

theorem atomWith_proceeds {inner : Parser Term}
    (hinner : ∀ front tokens depth, Reached line front tokens ⟨.term, depth⟩ →
      InScope line front scope →
      Proceeds line inner tokens (fun _ rest => RowRead line front depth rest))
    (h : Reached line front tokens ⟨stage, depth⟩) (hscope : InScope line front scope) :
    Proceeds line (atomWith line.source inner scope) tokens
      (AtomFound line scope front tokens depth) := by
  cases tokens with
  | nil => exact .faults rfl (line.blamesFirst_of_ne (by simp))
  | cons token rest =>
    obtain ⟨lexeme, pos⟩ := token
    cases lexeme with
    | lparen =>
      have hopened := h.next (hstage.next_lparen depth) nofun
      have hscope₁ : InScope line (front ++ [⟨.lparen, pos⟩]) scope :=
        h.inScope_token hstage.ne_binder hscope (by simp) (by simp)
      apply Ends.of_eq (atomWith_lparen line.source inner scope pos rest)
      apply Ends.bind (hinner _ _ _ hopened hscope₁)
      intro t rest₁ hrow
      obtain ⟨row, hbalanced, hstarts, hreached⟩ := hrow
      have hother (token : Token) (rest₂ : List Token) (heq : rest₁ = token :: rest₂) :
          token.kind ≠ .rparen → Place.next ⟨.row, depth + 1⟩ token.kind = none := by
        rw [heq] at hstarts
        exact hstarts.next_row.1 depth
      apply Ends.bind (expect_proceeds .rparen (by simp) hreached rfl hother)
      intro _ rest₂ hclosed
      obtain ⟨pos₁, hreached₂⟩ := hclosed
      exact h.atomFound_paren hstage hscope hbalanced hreached₂ t
    | ident name =>
      apply Ends.of_eq (atomWith_ident line.source inner scope name pos rest)
      apply Ends.bind (resolve_proceeds hstage hscope h)
      intro t rest₁ hfound
      exact hfound
    | _ => exact ⟨rfl, _, _, rfl, by simp, by simp⟩

end Atoms

section Application

variable {atom : Parser (Option Term)}
  (hatom : ∀ (stage : Stage) front tokens depth, stage.TakesAtom →
    Reached line front tokens ⟨stage, depth⟩ → InScope line front scope →
    Proceeds line atom tokens (AtomFound line scope front tokens depth))

include hatom

/-- The invariant of the loop over operands is that a balanced row was read before, which leaves the
scope as it was. -/
theorem operands_proceeds (fuel : Nat) {lhs : Term} {row : List Token}
    (hrow : Balanced (row.map Token.lexeme)) (hscope : InScope line (front ++ row) scope)
    (h : Reached line (front ++ row) tokens ⟨.row, depth⟩) :
    Proceeds line (operands atom fuel lhs) tokens (fun _ rest => RowRead line front depth rest) := by
  induction fuel generalizing lhs row tokens with
  | zero => exact .faults rfl (line.blamesFirst_of_ne (by simp))
  | succ fuel ih =>
    apply Ends.bind (hatom _ _ _ _ .row h hscope)
    intro found rest hfound
    cases found with
    | none =>
      obtain ⟨rfl, hstarts⟩ := hfound
      exact ⟨row, hrow, hstarts, h⟩
    | some rhs =>
      obtain ⟨more, hmore, hscope₁, hreached⟩ := hfound
      rw [List.append_assoc] at hscope₁ hreached
      have hboth : Balanced ((row ++ more).map Token.lexeme) := by
        rw [List.map_append]
        exact hrow.append hmore
      exact ih hboth hscope₁ hreached

theorem applicationWith_proceeds (h : Reached line front tokens ⟨.term, depth⟩)
    (hscope : InScope line front scope)
    (hlambda : ∀ token rest, tokens = token :: rest → token.lexeme ≠ .lambda) :
    Proceeds line (applicationWith line.source atom) tokens
      (fun _ rest => RowRead line front depth rest) := by
  apply Ends.bind (hatom _ _ _ _ .term h hscope)
  intro found rest hfound
  cases found with
  | none =>
    obtain ⟨rfl, hstarts⟩ := hfound
    obtain ⟨⟨lexeme, pos⟩, rest₁, rfl, hlparen, hident⟩ := hstarts
    apply fail_proceeds h
    intro token rest₂ heq
    cases heq
    cases lexeme with
    | lambda => exact absurd rfl (hlambda _ _ rfl)
    | lparen => exact absurd rfl hlparen
    | ident name => exact absurd rfl (hident name)
    | _ => rfl
  | some lhs =>
    obtain ⟨row, hrow, hscope₁, hreached⟩ := hfound
    exact operands_proceeds hatom (rest.length + 1) hrow hscope₁ hreached

end Application

/-! ### Terms and queries -/

theorem termWithin_proceeds (room : Nat) (scope : List String) (front tokens : List Token)
    (depth : Nat) (h : Reached line front tokens ⟨.term, depth⟩) (hscope : InScope line front scope) :
    Proceeds line (termWithin line.source room scope) tokens
      (fun _ rest => RowRead line front depth rest) := by
  induction room using room_induction generalizing scope front tokens depth with
  | zero => exact .faults rfl (line.blamesFirst_of_ne (by simp))
  | succ room ih ihInner =>
    cases tokens with
    | nil => exact .faults (termWithin_nil line.source room scope) (line.blamesFirst_of_ne (by simp))
    | cons token rest =>
      obtain ⟨lexeme, pos⟩ := token
      by_cases hlambda : lexeme = .lambda
      · subst hlambda
        have hmark := h.next rfl nofun
        apply Ends.of_eq (termWithin_lambda line.source room scope pos rest)
        apply Ends.bind (identifier_proceeds hmark)
        intro name rest₁ hname
        have hother (token : Token) (rest₂ : List Token) (_ : rest₁ = token :: rest₂)
            (htoken : token.kind ≠ .dot) : Place.next ⟨.dot, depth⟩ token.kind = none := by
          cases hkind : token.kind <;> first | rfl | exact absurd hkind htoken
        apply Ends.bind (expect_proceeds .dot (by simp) hname rfl hother)
        intro _ rest₂ hdot
        obtain ⟨pos₂, hreached⟩ := hdot
        have hscope₁ := h.inScope_binder hscope name.1 pos name.2 pos₂
        apply Ends.bind (ih _ _ _ _ hreached hscope₁)
        intro t rest₃ hread
        obtain ⟨row, hrow, hstarts, hreached₁⟩ := hread
        refine ⟨⟨.lambda, pos⟩ :: ⟨.ident name.1, name.2⟩ :: ⟨.dot, pos₂⟩ :: row, ?_, hstarts, ?_⟩
        · have hbinder : Balanced [.lambda, .ident name.1, .dot] :=
            balanced_of_notMem (by simp) (by simp)
          exact hbinder.append hrow
        · simpa using hreached₁
      · have hatom (stage : Stage) (front tokens : List Token) (depth : Nat)
            (hstage : stage.TakesAtom) (h : Reached line front tokens ⟨stage, depth⟩)
            (hscope : InScope line front scope) :=
          atomWith_proceeds hstage (ihInner scope) h hscope
        apply Ends.of_eq (termWithin_of_ne_lambda line.source room scope hlambda rest)
        apply applicationWith_proceeds hatom h hscope
        intro token rest₁ heq
        cases heq
        exact hlambda

/-- The tokens were read up to the end of input, and none of them offends. -/
def ReadsClean (definitions : Definitions) (tokens : List Token) : Prop :=
  ∃ front eof later, tokens = front ++ eof :: later ∧ eof.lexeme = .eof ∧
    ∀ k < front.length + 1, ¬ Offends definitions tokens k

theorem accept_proceeds (h : RowRead line [] 0 tokens) (query : Query) :
    Proceeds line (accept line.source query) tokens
      (fun _ _ => ReadsClean line.source.definitions line.tokens) := by
  obtain ⟨front, -, hstarts, hreached⟩ := h
  obtain ⟨⟨lexeme, pos⟩, rest, rfl, -, -⟩ := id hstarts
  by_cases heof : lexeme = .eof
  · subst heof
    have hfinished := hreached.next rfl nofun
    refine .returns rfl ⟨line.lead ++ front, ⟨.eof, pos⟩, rest, ?_, rfl, ?_⟩
    · rw [Line.tokens, hreached.body_eq, List.nil_append, List.append_assoc]
    · intro k hk
      apply hfinished.clean
      simpa [Nat.add_assoc] using hk
  · have hkind : lexeme.kind ≠ .eof := by
      cases lexeme <;> first | exact absurd rfl heof | simp [Lexeme.kind]
    have hrun : accept line.source query (⟨lexeme, pos⟩ :: rest)
        = fail line.source "end of input" (⟨lexeme, pos⟩ :: rest) := by
      cases lexeme <;> first | rfl | exact absurd rfl heof
    apply Ends.of_eq hrun
    apply fail_proceeds hreached
    intro token rest₁ heq
    cases heq
    exact hstarts.next_row.2 hkind

variable (line) in
theorem body_proceeds (make : Term → Query) :
    Proceeds line (make <$> term line.source [] >>= accept line.source) line.body
      (fun _ _ => ReadsClean line.source.definitions line.tokens) := by
  have hterm : Proceeds line (term line.source []) line.body
      (fun _ rest => RowRead line [] 0 rest) :=
    termWithin_proceeds (3 * line.body.length + 1) [] [] line.body 0 (reached_start line)
      (inScope_start line)
  apply Ends.bind hterm.map
  intro query rest hquery
  obtain ⟨t, -, hread⟩ := hquery
  exact accept_proceeds hread query

/-- A line in which no token offends is accepted, and in any other the first that does is blamed. -/
theorem query_proceeds (source : Source) {tokens : List Token} (h : Terminated tokens) :
    Ends (query source) tokens (fun _ _ => ReadsClean source.definitions tokens)
      (fun fault _ => fault.BlamesFirst source.definitions tokens) := by
  rcases definition_or_leads tokens with ⟨name, pos, pos₁, rest, rfl⟩ | hlead
  · let line : Line := ⟨source, [⟨.ident name, pos⟩, ⟨.equal, pos₁⟩], rest, .definition⟩
    apply Ends.of_eq (queryWith_definition source (term source []) name pos pos₁ rest)
    exact body_proceeds line (.definition name)
  · rcases queryWith_cases h with ⟨name, pos, pos₁, rest, rfl, -⟩ | hterm
    · cases hlead with
      | term hbody => exact absurd ⟨rest.map Token.kind, rfl⟩ hbody
    · let line : Line := ⟨source, [], tokens, hlead⟩
      exact .of_eq (hterm source (term source [])) (body_proceeds line .term)

end Parser

/-! ### Lines -/

theorem not_offends_or_blamesFirst (definitions : Definitions) {expr : String}
    {tokens : List Token} (htokens : tokenize expr = .ok tokens) :
    (∃ query, parse definitions expr = .ok query ∧ ∀ k, ¬ Offends definitions tokens k) ∨
      ∃ d, parse definitions expr = .error (.diagnostic d) ∧
        (Fault.diagnostic d).BlamesFirst definitions tokens := by
  have hends := Parser.query_proceeds ⟨expr, definitions⟩ (terminated_of_tokenize htokens)
  cases hparse : parse definitions expr with
  | ok query =>
    refine .inl ⟨query, rfl, ?_⟩
    simp only [parse, parseWith, htokens] at hparse
    split at hparse
    · next query' rest hrun =>
      obtain ⟨front, eof, later, rfl, heof, hclean⟩ := hends.of_ok hrun
      cases later_eq_nil_of_tokenize htokens heof
      intro k hoffends
      have hlt := hoffends.lt_length
      rw [List.length_append, List.length_singleton] at hlt
      exact hclean k hlt hoffends
    · cases hparse
  | error fault =>
    obtain ⟨d, rfl, -⟩ := (blamesLine_of_parse hparse).exists_diagnostic
    refine .inr ⟨d, rfl, ?_⟩
    simp only [parse, parseWith, htokens] at hparse
    split at hparse
    · cases hparse
    · next fault' rest hrun =>
      cases hparse
      exact hends.of_error hrun

/-- **The parser reports the leftmost error.** It refuses a line that was cut into tokens exactly if
one of them offends, and then it blames the first that does: as unexpected if no query starts with
the tokens up to it, and as unbound if it is a name that stands for nothing. -/
theorem parse_blames_first_offence (definitions : Definitions) (expr : String) (tokens : List Token)
    (htokens : tokenize expr = .ok tokens) :
    ((∃ fault, parse definitions expr = .error fault) ↔ ∃ k, Offends definitions tokens k) ∧
    ∀ k, Offends definitions tokens k → (∀ j < k, ¬ Offends definitions tokens j) →
      ∃ token d, tokens[k]? = some token ∧ parse definitions expr = .error (.diagnostic d) ∧
        d.start = token.pos ∧ (Misplaced tokens k → d.kind = .unexpected) ∧
        (Unresolved definitions tokens k → d.kind = .unbound) := by
  rcases not_offends_or_blamesFirst definitions htokens with
    ⟨query, hparse, hnone⟩ | ⟨d, hparse, hblames⟩
  · constructor
    · constructor
      · intro hfault
        obtain ⟨fault, hfault⟩ := hfault
        cases hparse.symm.trans hfault
      · intro hoffends
        obtain ⟨k, hk⟩ := hoffends
        exact absurd hk (hnone k)
    · intro k hk
      exact absurd hk (hnone k)
  · obtain ⟨first, token, htoken, hstart, hbefore, hcause⟩ := hblames d rfl
    have hoffends : Offends definitions tokens first := hcause.imp And.left And.left
    refine ⟨⟨fun _ => ⟨first, hoffends⟩, fun _ => ⟨_, hparse⟩⟩, ?_⟩
    intro k hk hleast
    have hfirst : first = k := by
      apply Nat.le_antisymm
      · exact Nat.le_of_not_lt fun hlt => hbefore k hlt hk
      · exact Nat.le_of_not_lt fun hlt => hleast first hlt hoffends
    subst hfirst
    refine ⟨token, d, htoken, hparse, hstart, ?_, ?_⟩
    · intro hmisplaced
      rcases hcause with ⟨-, hkind⟩ | ⟨hunresolved, -⟩
      · exact hkind
      · exact absurd hunresolved hmisplaced.not_unresolved
    · intro hunresolved
      rcases hcause with ⟨hmisplaced, -⟩ | ⟨-, hkind⟩
      · exact absurd hunresolved hmisplaced.not_unresolved
      · exact hkind

/-- The name `y` and the second equals sign of this line both offend. The name is blamed, which comes
first, and where it is defined the equals sign is. -/
theorem parse_blames_first_offence_twice :
    ∃ tokens, tokenize "f = \\x. (x y) =" = .ok tokens ∧
      (∃ k, Unresolved .empty tokens k ∧ (∀ j < k, ¬ Offends .empty tokens j) ∧
        tokens[k]? = some ⟨.ident "y", 11⟩ ∧ parse .empty "f = \\x. (x y) ="
          = .error (.diagnostic (.unbound "f = \\x. (x y) =" "y" 11))) ∧
      ∃ k, Misplaced tokens k ∧
        (∀ j < k, ¬ Offends (NameMap.empty.insert "y" (.lam "z" (.var 0))) tokens j) ∧
        tokens[k]? = some ⟨.equal, 14⟩ ∧
        parse (NameMap.empty.insert "y" (.lam "z" (.var 0))) "f = \\x. (x y) ="
          = .error (.diagnostic (.unexpected "f = \\x. (x y) =" "end of input" "'='" 14 1)) := by
  let tokens : List Token := [⟨.ident "f", 0⟩, ⟨.equal, 2⟩, ⟨.lambda, 4⟩, ⟨.ident "x", 5⟩, ⟨.dot, 6⟩,
    ⟨.lparen, 8⟩, ⟨.ident "x", 9⟩, ⟨.ident "y", 11⟩, ⟨.rparen, 12⟩, ⟨.equal, 14⟩, ⟨.eof, 15⟩]
  have htokens : tokenize "f = \\x. (x y) =" = .ok tokens := by decide +kernel
  have hunbound : parse .empty "f = \\x. (x y) ="
      = .error (.diagnostic (.unbound "f = \\x. (x y) =" "y" 11)) := by decide +kernel
  have hunexpected : parse (NameMap.empty.insert "y" (.lam "z" (.var 0))) "f = \\x. (x y) ="
      = .error (.diagnostic (.unexpected "f = \\x. (x y) =" "end of input" "'='" 14 1)) := by
    decide +kernel
  classical
  refine ⟨tokens, htokens, ?_, ?_⟩
  · obtain ⟨hoffends, hfirst⟩ := parse_blames_first_offence .empty _ tokens htokens
    have hexists := hoffends.mp ⟨_, hunbound⟩
    obtain ⟨token, d, htoken, hparse, hstart, hmisplaced, -⟩ :=
      hfirst _ (Nat.find_spec hexists) fun _ => Nat.find_min hexists
    cases hunbound.symm.trans hparse
    refine ⟨Nat.find hexists, ?_, fun _ => Nat.find_min hexists, ?_, hunbound⟩
    · rcases Nat.find_spec hexists with hk | hk
      · cases hmisplaced hk
      · exact hk
    · have honly : ∀ token ∈ tokens, token.pos = 11 → token = ⟨.ident "y", 11⟩ := by decide
      have hpos : token.pos = 11 := by
        have h : (11 : Int) = token.pos := hstart
        omega
      rw [htoken, honly token (List.mem_of_getElem? htoken) hpos]
  · obtain ⟨hoffends, hfirst⟩ := parse_blames_first_offence
      (NameMap.empty.insert "y" (.lam "z" (.var 0))) _ tokens htokens
    have hexists := hoffends.mp ⟨_, hunexpected⟩
    obtain ⟨token, d, htoken, hparse, hstart, -, hunresolved⟩ :=
      hfirst _ (Nat.find_spec hexists) fun _ => Nat.find_min hexists
    cases hunexpected.symm.trans hparse
    refine ⟨Nat.find hexists, ?_, fun _ => Nat.find_min hexists, ?_, hunexpected⟩
    · rcases Nat.find_spec hexists with hk | hk
      · exact hk
      · cases hunresolved hk
    · have honly : ∀ token ∈ tokens, token.pos = 14 → token = ⟨.equal, 14⟩ := by decide
      have hpos : token.pos = 14 := by
        have h : (14 : Int) = token.pos := hstart
        omega
      rw [htoken, honly token (List.mem_of_getElem? htoken) hpos]

end CallByValue
