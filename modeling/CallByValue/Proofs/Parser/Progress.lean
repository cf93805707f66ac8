import CallByValue.Proofs.Parser.Acceptance
/-!
# Parsers stay inside the tokens

No production reads the last token, which is an end of input. So wherever inside a row of tokens a
production begins, it ends inside as well, be it that it returns or that it blames a token or a name,
and that covers rows with another end of input further in front. There is always a current token, and
no bound on the way is ever used up. A term, an application and an atom that is found take at least
one token, which is why the loop over operands and the nesting come to an end; an atom that is not
found takes none.
-/

namespace CallByValue

namespace Parser

variable {α : Type} {source : Source} {tokens rest : List Token} {start : Nat}

/-! ### Places -/

theorem Terminated.ne_nil (h : Terminated tokens) : tokens ≠ [] := by
  obtain ⟨token, rest, rfl⟩ := h.exists_cons
  simp

theorem Terminated.drop (h : Terminated tokens) (hstart : start < tokens.length) :
    Terminated (tokens.drop start) := by
  obtain ⟨body, last, rfl, hlast⟩ := h
  rw [List.length_append, List.length_singleton] at hstart
  exact ⟨body.drop start, last, List.drop_append_of_le_length (Nat.le_of_lt_succ hstart), hlast⟩

theorem drop_of_append {front : List Token} (h : tokens.drop start = front ++ rest)
    (hrest : rest ≠ []) :
    start + front.length < tokens.length ∧ rest = tokens.drop (start + front.length) := by
  have heq : tokens.drop (start + front.length) = rest := by
    rw [← List.drop_drop, h, List.drop_left]
  refine ⟨?_, heq.symm⟩
  rw [← heq] at hrest
  exact Nat.lt_of_not_le (mt List.drop_eq_nil_of_le hrest)

/-! ### Inside -/

/-- Begun at the place `start`, the work ends at a place inside the tokens. It returns a value and
stops at a place as in `ok`, or it blames a token or a name. -/
def StaysInside (work : Parser α) (tokens : List Token) (start : Nat) (ok : α → Nat → Prop) :
    Prop :=
  Ends work (tokens.drop start)
    (fun a rest => ∃ stop < tokens.length, rest = tokens.drop stop ∧ ok a stop)
    (fun fault rest =>
      (∃ d : Diagnostic, fault = .diagnostic d ∧ (d.kind = .unexpected ∨ d.kind = .unbound)) ∧
      ∃ stop < tokens.length, rest = tokens.drop stop ∧ start ≤ stop)

/-- A token or more was read, and not the last one. -/
def Advances (tokens rest : List Token) : Prop :=
  ∃ front, front ≠ [] ∧ tokens = front ++ rest ∧ rest ≠ []

theorem Advances.exists_stop (h : Advances (tokens.drop start) rest) :
    ∃ stop < tokens.length, rest = tokens.drop stop ∧ start < stop := by
  obtain ⟨front, hfront, htokens, hrest⟩ := h
  obtain ⟨hlt, heq⟩ := drop_of_append htokens hrest
  have hpos := List.length_pos_iff.mpr hfront
  exact ⟨_, hlt, heq, by omega⟩

theorem Reads.advances {scope : List String} {rule : List Lexeme → Named → Prop} {t : Term}
    (hrule : ∀ {lexemes tree}, rule lexemes tree → Grammar.IsRow lexemes tree)
    (h : Reads source scope rule tokens t rest) (htokens : Terminated tokens) :
    Advances tokens rest := by
  have hrest := (h.terminated hrule htokens).ne_nil
  obtain ⟨front, tree, rfl, hderives, -⟩ := h
  exact ⟨front, by simpa using (hrule hderives).ne_nil, rfl, hrest⟩

theorem Blames.kind {fault : Fault} (h : Blames source tokens fault) :
    ∃ d : Diagnostic, fault = .diagnostic d ∧ (d.kind = .unexpected ∨ d.kind = .unbound) := by
  cases h with
  | token hmem expected => exact ⟨_, rfl, .inl rfl⟩
  | name hmem => exact ⟨_, rfl, .inr rfl⟩

/-- With more room than the tokens can take, work that stops blames a token or a name. -/
theorem staysInside_of_ends {work : Parser α} {ok : α → List Token → Prop} {ok' : α → Nat → Prop}
    (h : Ends work (tokens.drop start) ok
      (Stops source (3 * (tokens.drop start).length + 1) (tokens.drop start)))
    (hok : ∀ a rest, ok a rest → ∃ stop < tokens.length, rest = tokens.drop stop ∧ ok' a stop) :
    StaysInside work tokens start ok' := by
  apply (h.imp hok).weaken
  intro fault rest hstops
  refine ⟨(hstops.blames (Nat.lt_succ_self _)).kind, ?_⟩
  obtain ⟨front, hfront⟩ := hstops.suffix
  obtain ⟨hlt, heq⟩ := drop_of_append hfront.symm hstops.terminated.ne_nil
  exact ⟨_, hlt, heq, Nat.le_add_right _ _⟩

/-! ### Productions -/

theorem atom_ends {scope : List String} (room : Nat) (h : Terminated tokens) :
    Ends (atom source scope) tokens (AtomRead source scope tokens)
      (Stops source (room + 1) tokens) :=
  atomWith_ends (fun _ h => term_ends _ h) h

theorem application_ends {scope : List String} (room : Nat) (h : Terminated tokens) :
    Ends (application source scope) tokens (Reads source scope Grammar.IsApplication tokens)
      (Stops source (room + 1) tokens) :=
  applicationWith_ends (fun _ h => atom_ends room h) h

/-- Where no equals sign follows it, the name has been read all the same. -/
theorem definition_ends (room : Nat) (h : Terminated tokens) :
    Ends (definition source) tokens (fun _ rest => Advances tokens rest)
      (Stops source room tokens) := by
  apply Ends.bind (identifier_ends h List.suffix_rfl)
  rintro ⟨name, pos⟩ rest ⟨rfl, hrest⟩
  obtain ⟨⟨lexeme, pos₁⟩, later, rfl⟩ := hrest.exists_cons
  by_cases hequal : lexeme = .equal
  · subst hequal
    have hlater := hrest.tail (by simp)
    have hsuffix : later <:+ ⟨.ident name, pos⟩ :: ⟨.equal, pos₁⟩ :: later :=
      (List.suffix_cons _ _).trans (List.suffix_cons _ _)
    refine .bind_of_ok (rfl : skip .equal (⟨.equal, pos₁⟩ :: later) = .ok true later) ?_
    refine .bind ((term_ends room hlater).weaken ?_) ?_
    · intro fault rest hstops
      exact hstops.of_suffix hsuffix
    · intro body rest hread
      obtain ⟨front, -, rfl, hne⟩ := hread.advances Grammar.IsTerm.isRow hlater
      exact ⟨⟨.ident name, pos⟩ :: ⟨.equal, pos₁⟩ :: front, by simp, rfl, hne⟩
  · have hskip : skip .equal (⟨lexeme, pos₁⟩ :: later) = .ok false (⟨lexeme, pos₁⟩ :: later) := by
      cases lexeme <;> first | rfl | exact absurd rfl hequal
    refine .bind_of_ok hskip ?_
    exact ⟨[⟨.ident name, pos⟩], by simp, rfl, by simp⟩

/-- **Parsers stay inside the tokens and make progress.** Let the last of the tokens be an end of
input, with or without others in front of it, and let reading begin anywhere inside. Every production
returns or blames a token or a name, and stops at a place inside the tokens. A term, an application,
a definition and an atom that is found take at least one token, and an atom that is not found takes
none. A query is only returned in front of an end of input. -/
theorem productions_stay_inside (source : Source) (scope : List String) (htokens : Terminated tokens)
    (hstart : start < tokens.length) :
    StaysInside (term source scope) tokens start (fun _ stop => start < stop) ∧
    StaysInside (application source scope) tokens start (fun _ stop => start < stop) ∧
    StaysInside (atom source scope) tokens start
      (fun found stop => if found.isSome then start < stop else stop = start) ∧
    StaysInside (definition source) tokens start (fun _ stop => start < stop) ∧
    StaysInside (query source) tokens start
      (fun _ stop => ∃ token, tokens[stop]? = some token ∧ token.lexeme = .eof) := by
  have hleft := htokens.drop hstart
  refine ⟨?_, ?_, ?_, ?_, ?_⟩
  · apply staysInside_of_ends (term_ends _ hleft)
    exact fun t rest hread => (hread.advances Grammar.IsTerm.isRow hleft).exists_stop
  · apply staysInside_of_ends (application_ends _ hleft)
    have hrow {lexemes : List Lexeme} {tree : Named} (h : Grammar.IsApplication lexemes tree) :
        Grammar.IsRow lexemes tree := (Grammar.IsTerm.application h).isRow
    exact fun t rest hread => (hread.advances hrow hleft).exists_stop
  · apply staysInside_of_ends (atom_ends _ hleft)
    intro found rest hread
    cases found with
    | some t => exact (Reads.advances Grammar.IsAtom.isRow hread hleft).exists_stop
    | none => exact ⟨start, hstart, hread, rfl⟩
  · apply staysInside_of_ends (definition_ends _ hleft)
    exact fun found rest hadvances => hadvances.exists_stop
  · apply staysInside_of_ends (query_ends source _ hleft)
    rintro query rest ⟨⟨front, named, hfront, -, -⟩, eof, later, rfl, heof⟩
    obtain ⟨hlt, heq⟩ := drop_of_append hfront (by simp)
    refine ⟨_, hlt, heq, eof, ?_, heof⟩
    rw [← List.head?_drop, ← heq, List.head?_cons]

/-- The tokens of `(x` and of `)`, one after the other. The atom at the parenthesis blames the end of
input in the middle, and the term behind it stops there. -/
theorem productions_stay_inside_twice :
    Terminated [⟨.lparen, 0⟩, ⟨.ident "x", 1⟩, ⟨.eof, 2⟩, ⟨.rparen, 0⟩, ⟨.eof, 1⟩] ∧
    (∃ d stop, stop < 5 ∧ (d.kind = .unexpected ∨ d.kind = .unbound) ∧
      atom ⟨"(x", .empty⟩ ["x"] [⟨.lparen, 0⟩, ⟨.ident "x", 1⟩, ⟨.eof, 2⟩, ⟨.rparen, 0⟩, ⟨.eof, 1⟩]
        = .error (.diagnostic d)
          (List.drop stop [⟨.lparen, 0⟩, ⟨.ident "x", 1⟩, ⟨.eof, 2⟩, ⟨.rparen, 0⟩, ⟨.eof, 1⟩])) ∧
    ∃ stop, 1 < stop ∧ stop < 5 ∧
      term ⟨"(x", .empty⟩ ["x"] [⟨.ident "x", 1⟩, ⟨.eof, 2⟩, ⟨.rparen, 0⟩, ⟨.eof, 1⟩]
        = .ok (.var 0)
          (List.drop stop [⟨.lparen, 0⟩, ⟨.ident "x", 1⟩, ⟨.eof, 2⟩, ⟨.rparen, 0⟩, ⟨.eof, 1⟩]) := by
  have htokens :
      Terminated [⟨.lparen, 0⟩, ⟨.ident "x", 1⟩, ⟨.eof, 2⟩, ⟨.rparen, 0⟩, ⟨.eof, 1⟩] :=
    ⟨[⟨.lparen, 0⟩, ⟨.ident "x", 1⟩, ⟨.eof, 2⟩, ⟨.rparen, 0⟩], ⟨.eof, 1⟩, rfl, rfl⟩
  obtain ⟨-, -, hatom, -⟩ :=
    productions_stay_inside ⟨"(x", .empty⟩ ["x"] htokens (show 0 < 5 by decide)
  obtain ⟨hterm, -⟩ :=
    productions_stay_inside ⟨"(x", .empty⟩ ["x"] htokens (show 1 < 5 by decide)
  refine ⟨htokens, ?_, ?_⟩
  · obtain ⟨⟨d, hfault, hkind⟩, stop, hlt, heq, -⟩ := hatom.of_error rfl
    refine ⟨d, stop, hlt, hkind, ?_⟩
    rw [← heq, ← hfault]
    rfl
  · obtain ⟨stop, hlt, heq, hless⟩ := hterm.of_ok rfl
    refine ⟨stop, hless, hlt, ?_⟩
    rw [← heq]
    rfl

end Parser

end CallByValue
