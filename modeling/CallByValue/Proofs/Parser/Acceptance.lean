import CallByValue.Proofs.Lexing
import CallByValue.Proofs.Parser.Frames
import CallByValue.Proofs.Parser.Nesting
/-!
# What the grammar derives is read

The other direction: tokens that the grammar derives, and whose names can be resolved, are read as
the term that the derivation stands for, provided that what follows them does not start another
atom, and that they take no more frames than the reading has. With fewer frames it gives up. An
application is followed through its loop, so the statement about it says where the loop stands once
the application is read, and not yet that it ends there.

Together with soundness this says exactly which lines `parse` accepts and what it makes of them. No
line stands for two queries, since `parse` gives only one.
-/

namespace CallByValue

namespace Named

variable {definitions : Definitions} {scope : List String} {t : Term}

theorem elaborate_lam_eq_some {param : String} {body : Named} :
    (Named.lam param body).elaborate definitions scope = some t ↔
      ∃ b, body.elaborate definitions (param :: scope) = some b ∧ .lam param b = t := by
  rw [elaborate, Option.map_eq_some_iff]

theorem elaborate_app_eq_some {lhs rhs : Named} :
    (Named.app lhs rhs).elaborate definitions scope = some t ↔
      ∃ l r, lhs.elaborate definitions scope = some l ∧
        rhs.elaborate definitions scope = some r ∧ .app l r = t := by
  simp [elaborate, Option.bind_eq_some_iff]

end Named

namespace Grammar

theorem IsAtom.exists_cons {lexemes : List Lexeme} {tree : Named} (h : IsAtom lexemes tree) :
    ∃ lexeme later, lexemes = lexeme :: later ∧ lexeme ≠ .lambda := by
  cases h with
  | ident => exact ⟨_, _, rfl, by simp⟩
  | paren h => exact ⟨_, _, rfl, by simp⟩

theorem IsApplication.exists_cons {lexemes : List Lexeme} {tree : Named}
    (h : IsApplication lexemes tree) :
    ∃ lexeme later, lexemes = lexeme :: later ∧ lexeme ≠ .lambda := by
  cases h with
  | atom h => exact h.exists_cons
  | app hl hr =>
    obtain ⟨lexeme, later, rfl, hlexeme⟩ := hl.exists_cons
    exact ⟨lexeme, _, rfl, hlexeme⟩

end Grammar

namespace Parser

open Grammar

/-- The first token is there and starts no atom. -/
def StartsNoAtom (tokens : List Token) : Prop :=
  ∃ token rest, tokens = token :: rest ∧ token.lexeme ≠ .lparen ∧ ∀ name, token.lexeme ≠ .ident name

variable {source : Source}

theorem atomWith_of_startsNoAtom {tokens : List Token} (h : StartsNoAtom tokens)
    (inner : Parser Term) (scope : List String) :
    atomWith source inner scope tokens = .ok none tokens := by
  obtain ⟨⟨lexeme, pos⟩, rest, rfl, hlparen, hident⟩ := h
  cases lexeme with
  | lparen => exact absurd rfl hlparen
  | ident name => exact absurd rfl (hident name)
  | _ => rfl

theorem exists_of_map_lexeme_eq_cons {tokens : List Token} {lexeme : Lexeme}
    {lexemes : List Lexeme} (h : tokens.map Token.lexeme = lexeme :: lexemes) :
    ∃ pos later, tokens = ⟨lexeme, pos⟩ :: later ∧ later.map Token.lexeme = lexemes := by
  obtain ⟨⟨_, pos⟩, later, rfl, rfl, hlater⟩ := List.map_eq_cons_iff.mp h
  exact ⟨pos, later, rfl, hlater⟩

mutual

theorem termWithin_of_takes {lexemes : List Lexeme} {tree : Named} {front rest : List Token}
    {frames : Nat} {scope : List String} {t : Term} : TermTakes frames lexemes tree →
    front.map Token.lexeme = lexemes → tree.elaborate source.definitions scope = some t →
    StartsNoAtom rest → ∀ room, frames ≤ room →
    termWithin source room scope (front ++ rest) = .ok t rest
  | @TermTakes.lam _ param _ _ h, hfront, hterm, hrest, room + 1, hroom => by
    obtain ⟨pos, front₁, rfl, hfront₁⟩ := exists_of_map_lexeme_eq_cons hfront
    obtain ⟨pos₁, front₂, rfl, hfront₂⟩ := exists_of_map_lexeme_eq_cons hfront₁
    obtain ⟨pos₂, front₃, rfl, hfront₃⟩ := exists_of_map_lexeme_eq_cons hfront₂
    obtain ⟨body, hbody, rfl⟩ := Named.elaborate_lam_eq_some.mp hterm
    have hrun := termWithin_of_takes h hfront₃ hbody hrest room (Nat.le_of_succ_le_succ hroom)
    rw [List.cons_append, termWithin_lambda]
    exact bind_eq_of_eq_ok _ hrun
  | .application h, hfront, hterm, hrest, room + 1, hroom => by
    obtain ⟨fuel, hfuel, hrun⟩ := applicationWith_of_takes h hfront hterm rest room
      (Nat.le_of_succ_le_succ hroom)
    obtain ⟨fuel, rfl⟩ : ∃ f, fuel = f + 1 := ⟨fuel - 1, by omega⟩
    obtain ⟨lexeme, later, rfl, hlexeme⟩ := h.isApplication.exists_cons
    obtain ⟨pos, front, rfl, -⟩ := exists_of_map_lexeme_eq_cons hfront
    rw [List.cons_append, termWithin_of_ne_lambda source _ _ hlexeme]
    refine hrun.trans ?_
    simp only [operands, bind, EStateM.bind, atomWith_of_startsNoAtom hrest]
    rfl

theorem applicationWith_of_takes {lexemes : List Lexeme} {tree : Named} {front : List Token}
    {frames : Nat} {scope : List String} {t : Term} : ApplicationTakes frames lexemes tree →
    front.map Token.lexeme = lexemes → tree.elaborate source.definitions scope = some t → ∀ rest,
    ∀ room, frames ≤ room → ∃ fuel, rest.length < fuel ∧
      applicationWith source (atomWith source (termWithin source (room - 2) scope) scope)
          (front ++ rest)
        = operands (atomWith source (termWithin source (room - 2) scope) scope) fuel t rest
  | .atom h, hfront, hterm, rest, room, hroom => by
    refine ⟨rest.length + 1, Nat.lt_succ_self _, ?_⟩
    simp only [applicationWith, bind, EStateM.bind,
      atomWith_of_takes h hfront hterm rest room hroom]
    rfl
  | .app hl hr, hfront, hterm, rest, room, hroom => by
    obtain ⟨left, right, rfl, hleft, hright⟩ := List.map_eq_append_iff.mp hfront
    obtain ⟨lhs, rhs, hlhs, hrhs, rfl⟩ := Named.elaborate_app_eq_some.mp hterm
    obtain ⟨hroom, hroom'⟩ := Nat.max_le.mp hroom
    obtain ⟨fuel, hfuel, hrun⟩ :=
      applicationWith_of_takes hl hleft hlhs (right ++ rest) room hroom
    have hpos : 0 < right.length := by
      rw [← List.length_map Token.lexeme, hright]
      exact List.length_pos_iff.mpr hr.isAtom.isRow.ne_nil
    rw [List.length_append] at hfuel
    obtain ⟨fuel, rfl⟩ : ∃ f, fuel = f + 1 := ⟨fuel - 1, by omega⟩
    refine ⟨fuel, by omega, ?_⟩
    rw [List.append_assoc, hrun]
    simp only [operands, bind, EStateM.bind, atomWith_of_takes hr hright hrhs rest room hroom']

theorem atomWith_of_takes {lexemes : List Lexeme} {tree : Named} {front : List Token}
    {frames : Nat} {scope : List String} {t : Term} : AtomTakes frames lexemes tree →
    front.map Token.lexeme = lexemes → tree.elaborate source.definitions scope = some t → ∀ rest,
    ∀ room, frames ≤ room →
    atomWith source (termWithin source (room - 2) scope) scope (front ++ rest) = .ok (some t) rest
  | @AtomTakes.ident name, hfront, hterm, rest, room, _ => by
    obtain ⟨pos, later, rfl, hlater⟩ := exists_of_map_lexeme_eq_cons hfront
    cases List.map_eq_nil_iff.mp hlater
    have hrun := resolve_eq source scope name pos rest
    rw [hterm] at hrun
    refine (atomWith_ident source _ scope name pos rest).trans ?_
    simp only [bind, EStateM.bind, hrun]
    rfl
  | .paren h, hfront, hterm, rest, room, hroom => by
    obtain ⟨pos, front₁, rfl, hfront₁⟩ := exists_of_map_lexeme_eq_cons hfront
    obtain ⟨inner, last, rfl, hinner, hlast⟩ := List.map_eq_append_iff.mp hfront₁
    obtain ⟨pos₁, later, rfl, hlater⟩ := exists_of_map_lexeme_eq_cons hlast
    cases List.map_eq_nil_iff.mp hlater
    have hclose : StartsNoAtom (⟨.rparen, pos₁⟩ :: rest) := ⟨_, _, rfl, by simp, by simp⟩
    have hrun := termWithin_of_takes h hinner hterm hclose (room - 2) (by omega)
    rw [List.cons_append, List.append_assoc, atomWith_lparen]
    exact bind_eq_of_eq_ok _ hrun

end

/-! ### Too few frames -/

/-- The work gives up on the nesting. -/
def GivesUp {α : Type} (work : Parser α) (tokens : List Token) : Prop :=
  ∃ rest, work tokens = .error .depthExceeded rest

theorem GivesUp.bind {α β : Type} {work : Parser α} {tokens : List Token}
    (h : GivesUp work tokens) (next : α → Parser β) : GivesUp (work >>= next) tokens := by
  obtain ⟨rest, hrun⟩ := h
  exact ⟨rest, bind_eq_of_eq_error next hrun⟩

theorem GivesUp.of_eq {α : Type} {work work' : Parser α} {tokens tokens' : List Token}
    (heq : work tokens = work' tokens') (h : GivesUp work' tokens') : GivesUp work tokens := by
  rwa [GivesUp, heq]

mutual

/-- Names are resolved as the row is read, so all that come before the place where the frames run
out have to stand for something. -/
theorem termWithin_givesUp {lexemes : List Lexeme} {tree : Named} {front : List Token}
    {frames : Nat} {scope : List String} {t : Term} : TermTakes frames lexemes tree →
    front.map Token.lexeme = lexemes → tree.elaborate source.definitions scope = some t → ∀ rest,
    ∀ room, room < frames → GivesUp (termWithin source room scope) (front ++ rest)
  | _, _, _, rest, 0, _ => ⟨front ++ rest, rfl⟩
  | @TermTakes.lam _ param _ _ h, hfront, hterm, rest, room + 1, hroom => by
    obtain ⟨pos, front₁, rfl, hfront₁⟩ := exists_of_map_lexeme_eq_cons hfront
    obtain ⟨pos₁, front₂, rfl, hfront₂⟩ := exists_of_map_lexeme_eq_cons hfront₁
    obtain ⟨pos₂, front₃, rfl, hfront₃⟩ := exists_of_map_lexeme_eq_cons hfront₂
    obtain ⟨body, hbody, rfl⟩ := Named.elaborate_lam_eq_some.mp hterm
    have hbody := termWithin_givesUp h hfront₃ hbody rest room (Nat.lt_of_succ_lt_succ hroom)
    rw [List.cons_append]
    exact .of_eq (termWithin_lambda source room scope pos _) (hbody.bind _)
  | .application h, hfront, hterm, rest, room + 1, hroom => by
    have happlication := applicationWith_givesUp h hfront hterm rest room
      (Nat.lt_of_succ_lt_succ hroom)
    obtain ⟨lexeme, later, rfl, hlexeme⟩ := h.isApplication.exists_cons
    obtain ⟨pos, front, rfl, -⟩ := exists_of_map_lexeme_eq_cons hfront
    exact .of_eq (termWithin_of_ne_lambda source room scope hlexeme _) happlication

theorem applicationWith_givesUp {lexemes : List Lexeme} {tree : Named} {front : List Token}
    {frames : Nat} {scope : List String} {t : Term} : ApplicationTakes frames lexemes tree →
    front.map Token.lexeme = lexemes → tree.elaborate source.definitions scope = some t → ∀ rest,
    ∀ room, room < frames →
    GivesUp (applicationWith source (atomWith source (termWithin source (room - 2) scope) scope))
      (front ++ rest)
  | .atom h, hfront, hterm, rest, room, hroom =>
    (atomWith_givesUp h hfront hterm rest room hroom).bind _
  | @ApplicationTakes.app frames more _ _ _ _ hl hr, hfront, hterm, rest, room, hroom => by
    obtain ⟨left, right, rfl, hleft, hright⟩ := List.map_eq_append_iff.mp hfront
    obtain ⟨lhs, rhs, hlhs, hrhs, rfl⟩ := Named.elaborate_app_eq_some.mp hterm
    rw [List.append_assoc]
    by_cases hfits : frames ≤ room
    · -- the operator is read, and the frames run out in the last operand
      obtain ⟨fuel, hfuel, hrun⟩ :=
        applicationWith_of_takes hl hleft hlhs (right ++ rest) room hfits
      obtain ⟨fuel, rfl⟩ : ∃ f, fuel = f + 1 := ⟨fuel - 1, by omega⟩
      have hlast := atomWith_givesUp hr hright hrhs rest room (by omega)
      exact .of_eq hrun (hlast.bind _)
    · exact applicationWith_givesUp hl hleft hlhs (right ++ rest) room (Nat.lt_of_not_le hfits)

theorem atomWith_givesUp {lexemes : List Lexeme} {tree : Named} {front : List Token}
    {frames : Nat} {scope : List String} {t : Term} : AtomTakes frames lexemes tree →
    front.map Token.lexeme = lexemes → tree.elaborate source.definitions scope = some t → ∀ rest,
    ∀ room, room < frames →
    GivesUp (atomWith source (termWithin source (room - 2) scope) scope) (front ++ rest)
  | .ident, _, _, _, _, hroom => absurd hroom (Nat.not_lt_zero _)
  | .paren h, hfront, hterm, rest, room, hroom => by
    obtain ⟨pos, front₁, rfl, hfront₁⟩ := exists_of_map_lexeme_eq_cons hfront
    obtain ⟨inner, last, rfl, hinner, hlast⟩ := List.map_eq_append_iff.mp hfront₁
    have hpos := h.pos
    have hinner := termWithin_givesUp h hinner hterm (last ++ rest) (room - 2) (by omega)
    rw [List.cons_append, List.append_assoc]
    exact .of_eq (atomWith_lparen source _ scope pos _) (hinner.bind _)

end

/-! ### Queries -/

theorem term_of_isTerm {tree : Named} {front rest : List Token} {scope : List String} {t : Term}
    (h : IsTerm (front.map Token.lexeme) tree)
    (hterm : tree.elaborate source.definitions scope = some t) (hrest : StartsNoAtom rest) :
    term source scope (front ++ rest) = .ok t rest := by
  obtain ⟨frames, htakes, hle⟩ := h.exists_takes
  rw [term_apply]
  apply termWithin_of_takes htakes rfl hterm hrest
  rw [List.length_map] at hle
  rw [List.length_append]
  omega

theorem term_ends {tokens : List Token} {scope : List String} (room : Nat)
    (h : Terminated tokens) :
    Ends (term source scope) tokens (Reads source scope IsTerm tokens) (Stops source room tokens) := by
  apply Ends.of_eq (term_apply source scope tokens)
  apply (termWithin_ends (3 * tokens.length + 1) scope h).weaken
  intro fault rest hstops
  exact .of_blames hstops.terminated hstops.suffix (hstops.blames (Nat.lt_succ_self _))

variable (source) in
theorem query_ends (room : Nat) {tokens : List Token} (h : Terminated tokens) :
    Ends (query source) tokens
      (fun query rest => QueryReads source tokens query rest ∧
        ∃ eof later, rest = eof :: later ∧ eof.lexeme = .eof)
      (Stops source room tokens) :=
  queryWith_ends (fun _ h => term_ends room h) h

variable (source) in
/-- A term is not taken for a definition: no equals sign follows its first token. -/
theorem definitionWith?_of_isTerm {tree : Named} {front : List Token}
    (h : IsTerm (front.map Token.lexeme) tree) (inner : Parser Term) (stop : Nat) :
    definitionWith? source inner (front ++ [⟨.eof, stop⟩]) = .ok none (front ++ [⟨.eof, stop⟩]) := by
  have hrow := h.isRow
  cases front with
  | nil => exact absurd rfl hrow.ne_nil
  | cons token front =>
    obtain ⟨lexeme, pos⟩ := token
    cases lexeme with
    | ident name =>
      cases front with
      | nil => exact definitionWith?_of_ne_equal source inner name pos (by simp) []
      | cons token₁ front =>
        have hne : token₁.lexeme ≠ .equal := (hrow.plain token₁.lexeme (by simp)).1
        exact definitionWith?_of_ne_equal source inner name pos hne (front ++ [⟨.eof, stop⟩])
    | _ => rfl

variable (source) in
theorem queryWith_definition_of_eq_ok {inner : Parser Term} {rest : List Token} {t : Term}
    {stop : Nat} (hread : inner rest = .ok t [⟨.eof, stop⟩]) (name : String) (pos pos₁ : Nat) :
    queryWith source inner (⟨.ident name, pos⟩ :: ⟨.equal, pos₁⟩ :: rest)
      = .ok (.definition name t) [⟨.eof, stop⟩] := by
  rw [queryWith_definition]
  simp only [bind, EStateM.bind, Functor.map, EStateM.map, hread]
  rfl

theorem query_of_isQuery {named : NamedQuery} {front : List Token} {pos : Nat} {query : Query}
    (h : IsQuery (front.map Token.lexeme) named)
    (hquery : named.elaborate source.definitions = some query) :
    Parser.query source (front ++ [⟨.eof, pos⟩]) = .ok query [⟨.eof, pos⟩] := by
  have hrest : StartsNoAtom [⟨.eof, pos⟩] := ⟨_, [], rfl, by simp, by simp⟩
  obtain ⟨t, hterm, rfl⟩ := Option.map_eq_some_iff.mp hquery
  rcases named with ⟨name, tree⟩
  generalize hlexemes : front.map Token.lexeme = lexemes at h
  cases h with
  | @definition name _ _ h =>
    obtain ⟨pos₁, front₁, rfl, hfront₁⟩ := exists_of_map_lexeme_eq_cons hlexemes
    obtain ⟨pos₂, front₂, rfl, rfl⟩ := exists_of_map_lexeme_eq_cons hfront₁
    exact queryWith_definition_of_eq_ok source (term_of_isTerm h hterm hrest) name pos₁ pos₂
  | term h =>
    subst hlexemes
    have hread := term_of_isTerm h hterm hrest
    have hdefinition := definitionWith?_of_isTerm source h (term source []) pos
    simp only [query, queryWith, bind, EStateM.bind, hdefinition, Functor.map, EStateM.map, hread]
    rfl

end Parser

namespace Grammar

/-- The line can be cut into tokens, and the tokens before the end of input are derived by the
grammar as a query which, with its names resolved, is the given one. -/
def StandsFor (definitions : Definitions) (expr : String) (query : Query) : Prop :=
  ∃ tokens stop named, tokenize expr = .ok (tokens ++ [⟨.eof, stop⟩]) ∧
    IsQuery (tokens.map Token.lexeme) named ∧ named.elaborate definitions = some query

end Grammar

open Grammar

theorem parse_of_standsFor {definitions : Definitions} {expr : String} {query : Query}
    (h : StandsFor definitions expr query) : parse definitions expr = .ok query := by
  obtain ⟨tokens, stop, named, htokens, hderives, hquery⟩ := h
  let source : Source := ⟨expr, definitions⟩
  have hread : Parser.queryWith source (Parser.term source []) (tokens ++ [⟨.eof, stop⟩])
      = .ok query [⟨.eof, stop⟩] := Parser.query_of_isQuery hderives hquery
  simp only [parse, parseWith, htokens]
  rw [hread]

/-- A fault that blames the line: for a character, a token or a name. The diagnostic comes from its
recipe, and it can be shown. -/
inductive Fault.BlamesLine : Fault → Prop where
  | unrecognized {expr : String} {c : Char} {pos : Nat}
      (hmade : (Diagnostic.Recipe.unrecognized expr c pos).Makes (.unrecognized expr c pos))
      (hwithin : (Diagnostic.unrecognized expr c pos).Within) :
      BlamesLine (.diagnostic (.unrecognized expr c pos))
  | unexpected {expr expected found : String} {pos width : Nat}
      (hmade : (Diagnostic.Recipe.unexpected expr expected found pos width).Makes
        (.unexpected expr expected found pos width))
      (hwithin : (Diagnostic.unexpected expr expected found pos width).Within) :
      BlamesLine (.diagnostic (.unexpected expr expected found pos width))
  | unbound {expr name : String} {pos : Int}
      (hmade : (Diagnostic.Recipe.unbound expr name pos).Makes (.unbound expr name pos))
      (hwithin : (Diagnostic.unbound expr name pos).Within) :
      BlamesLine (.diagnostic (.unbound expr name pos))

theorem Fault.BlamesLine.exists_diagnostic {fault : Fault} (h : fault.BlamesLine) :
    ∃ d : Diagnostic, fault = .diagnostic d ∧ d.Within ∧
      (d.kind = .unrecognized ∨ d.kind = .unexpected ∨ d.kind = .unbound) := by
  cases h with
  | unrecognized _ hwithin => exact ⟨_, rfl, hwithin, .inl rfl⟩
  | unexpected _ hwithin => exact ⟨_, rfl, hwithin, .inr (.inl rfl)⟩
  | unbound _ hwithin => exact ⟨_, rfl, hwithin, .inr (.inr rfl)⟩

theorem Parser.Blames.blamesLine {source : Source} {tokens : List Token} {fault : Fault}
    (h : Parser.Blames source tokens fault)
    (hends : ∀ token ∈ tokens, token.EndsBy source.expr.length) : fault.BlamesLine := by
  cases h with
  | @token token hmem expected =>
    obtain ⟨hpos, hstop⟩ := hends token hmem
    exact .unexpected (Diagnostic.Recipe.makes_unexpected _ _ _ _ _)
      (Diagnostic.unexpected_within hpos hstop _ _)
  | @name name pos hmem =>
    obtain ⟨hpos, hstop⟩ := hends _ hmem
    have hlength : pos + name.length ≤ source.expr.length + 1 :=
      (Nat.add_le_add_left (Nat.le_max_right 1 name.length) pos).trans hstop
    exact .unbound (Diagnostic.Recipe.makes_unbound _ _ _) (Diagnostic.unbound_within hpos hlength)

theorem later_eq_nil_of_tokenize {expr : String} {front later : List Token} {eof : Token}
    (h : tokenize expr = .ok (front ++ eof :: later)) (heof : eof.lexeme = .eof) :
    later = [] := by
  obtain ⟨body, hbody, hfrom⟩ := tokenize_eq_ok h
  rcases List.eq_nil_or_concat later with rfl | ⟨init, last, rfl⟩
  · rfl
  · rw [List.concat_eq_append, ← List.cons_append, ← List.append_assoc] at hbody
    obtain ⟨rfl, -⟩ := List.append_inj' hbody rfl
    exact absurd heof (hfrom eof (by simp)).1

theorem standsFor_of_parse {definitions : Definitions} {expr : String} {query : Query}
    (h : parse definitions expr = .ok query) : StandsFor definitions expr query := by
  cases htokens : tokenize expr with
  | error fault => simp only [parse, parseWith, htokens, reduceCtorEq] at h
  | ok tokens =>
    simp only [parse, parseWith, htokens] at h
    split at h
    · next query' rest hrun =>
      cases h
      have hends := Parser.query_ends ⟨expr, definitions⟩ 0 (terminated_of_tokenize htokens)
      obtain ⟨⟨front, named, rfl, hderives, hquery⟩, ⟨_, stop⟩, later, rfl, rfl⟩ :=
        hends.of_ok hrun
      cases later_eq_nil_of_tokenize htokens rfl
      exact ⟨front, stop, named, htokens, hderives, hquery⟩
    · cases h

theorem parse_eq_ok_iff {definitions : Definitions} {expr : String} {query : Query} :
    parse definitions expr = .ok query ↔ StandsFor definitions expr query :=
  ⟨standsFor_of_parse, parse_of_standsFor⟩

theorem blames_of_parse {definitions : Definitions} {expr : String} {tokens : List Token}
    (htokens : tokenize expr = .ok tokens) {fault : Fault}
    (h : parse definitions expr = .error fault) :
    Parser.Blames ⟨expr, definitions⟩ tokens fault := by
  simp only [parse, parseWith, htokens] at h
  split at h
  · cases h
  · next fault' rest hrun =>
    cases h
    -- More frames than the whole line can take.
    have hends := Parser.query_ends ⟨expr, definitions⟩ (3 * tokens.length + 1)
      (terminated_of_tokenize htokens)
    exact (hends.of_error hrun).blames (Nat.lt_succ_self _)

theorem parse_of_tokenize_eq_error {expr : String} {fault : Fault}
    (h : tokenize expr = .error fault) (definitions : Definitions) :
    parse definitions expr = .error fault := by
  simp only [parse, parseWith, h]

theorem blamesLine_of_parse {definitions : Definitions} {expr : String} {fault : Fault}
    (h : parse definitions expr = .error fault) : fault.BlamesLine := by
  cases htokens : tokenize expr with
  | error fault' =>
    cases h.symm.trans (parse_of_tokenize_eq_error htokens definitions)
    obtain ⟨front, c, back, hexpr, -, -, rfl⟩ := exists_unrecognized_of_tokenize htokens
    have hpos : front.length < expr.length := by simp [← String.length_toList, hexpr]
    exact .unrecognized (Diagnostic.Recipe.makes_unrecognized _ _ _)
      (Diagnostic.unrecognized_within hpos c)
  | ok tokens => exact (blames_of_parse htokens h).blamesLine (tokenize_endsBy htokens)

/-- With the bound, nothing but the depth can be to blame besides the line. -/
theorem blamesLine_of_parseBounded {definitions : Definitions} {expr : String} {fault : Fault}
    (h : parseBounded definitions expr = .error fault) :
    fault.BlamesLine ∨ fault = .depthExceeded := by
  rcases parseBounded_eq_or definitions expr with heq | hdeep
  · exact .inl (blamesLine_of_parse (heq.symm.trans h))
  · cases h.symm.trans hdeep
    exact .inr rfl

/-- **The parser accepts exactly its grammar.** It returns a query exactly if the line stands for it
by the grammar alone, no line stands for two queries, and a line that stands for none is blamed for
a character, a token or a name. With a bound on the nesting it does the same, or gives up. -/
theorem parse_exact (definitions : Definitions) (expr : String) :
    (∀ query, parse definitions expr = .ok query ↔ StandsFor definitions expr query) ∧
    (∀ p q, StandsFor definitions expr p → StandsFor definitions expr q → p = q) ∧
    ((∀ query, ¬ StandsFor definitions expr query) →
      ∃ d : Diagnostic, parse definitions expr = .error (.diagnostic d) ∧
        (d.kind = .unrecognized ∨ d.kind = .unexpected ∨ d.kind = .unbound)) ∧
    (parseBounded definitions expr = parse definitions expr ∨
      parseBounded definitions expr = .error .depthExceeded) := by
  refine ⟨fun query => parse_eq_ok_iff, ?_, ?_, parseBounded_eq_or definitions expr⟩
  · intro p q hp hq
    have hparse := (parse_of_standsFor hp).symm.trans (parse_of_standsFor hq)
    exact Except.ok.inj hparse
  · intro hnone
    cases hparse : parse definitions expr with
    | ok query => exact absurd (parse_eq_ok_iff.mp hparse) (hnone query)
    | error fault =>
      obtain ⟨d, rfl, -, hkind⟩ := (blamesLine_of_parse hparse).exists_diagnostic
      exact ⟨d, rfl, hkind⟩

end CallByValue
