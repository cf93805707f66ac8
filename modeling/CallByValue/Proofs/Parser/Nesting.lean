import CallByValue.Proofs.Lexing
import CallByValue.Proofs.Parser.Soundness
/-!
# A bound on the nesting only refuses

Reading with a bound on the nesting does what reading without one does, token by token and fault by
fault, or else gives up. So a line that is read within the bound is read as the same query, and a
line that is blamed is blamed in the same words.
-/

namespace CallByValue

namespace Parser

/-- The first parser does as the second, or gives up on the nesting. -/
def Agrees {α : Type} (work work' : Parser α) (tokens : List Token) : Prop :=
  work tokens = work' tokens ∨ ∃ rest, work tokens = .error .depthExceeded rest

section Agrees

variable {α β : Type} {work work' : Parser α} {tokens : List Token}

theorem Agrees.refl (work : Parser α) (tokens : List Token) : Agrees work work tokens :=
  .inl rfl

theorem Agrees.bind {next next' : α → Parser β} (h : Agrees work work' tokens)
    (hnext : ∀ a rest, Agrees (next a) (next' a) rest) :
    Agrees (work >>= next) (work' >>= next') tokens := by
  rcases h with heq | ⟨rest, hdeep⟩
  · cases hrun : work tokens with
    | ok a rest =>
      have hrun' : work' tokens = .ok a rest := heq ▸ hrun
      rw [Agrees, bind_eq_of_eq_ok next hrun, bind_eq_of_eq_ok next' hrun']
      exact hnext a rest
    | error fault rest =>
      have hrun' : work' tokens = .error fault rest := heq ▸ hrun
      apply Or.inl
      simp only [Bind.bind, EStateM.bind, hrun, hrun']
  · refine .inr ⟨rest, ?_⟩
    simp only [Bind.bind, EStateM.bind, hdeep]

theorem Agrees.map (f : α → β) (h : Agrees work work' tokens) :
    Agrees (f <$> work) (f <$> work') tokens := by
  rcases h with heq | ⟨rest, hdeep⟩
  · apply Or.inl
    simp only [Functor.map, EStateM.map, heq]
  · refine .inr ⟨rest, ?_⟩
    simp only [Functor.map, EStateM.map, hdeep]

end Agrees

variable {source : Source}

theorem atomWith_agrees {inner inner' : Parser Term} (h : ∀ tokens, Agrees inner inner' tokens)
    (scope : List String) (tokens : List Token) :
    Agrees (atomWith source inner scope) (atomWith source inner' scope) tokens := by
  apply Agrees.bind (.refl _ _)
  intro opened rest
  cases opened with
  | true => exact .bind (h rest) fun _ _ => .refl _ _
  | false => exact .refl _ _

theorem operands_agrees {atom atom' : Parser (Option Term)}
    (h : ∀ tokens, Agrees atom atom' tokens) (bound : Nat) (lhs : Term) (tokens : List Token) :
    Agrees (operands atom bound lhs) (operands atom' bound lhs) tokens := by
  induction bound generalizing lhs tokens with
  | zero => exact .refl _ _
  | succ bound ih =>
    apply Agrees.bind (h tokens)
    intro found rest
    cases found with
    | none => exact .refl _ _
    | some rhs => exact ih (.app lhs rhs) rest

theorem applicationWith_agrees {atom atom' : Parser (Option Term)}
    (h : ∀ tokens, Agrees atom atom' tokens) (tokens : List Token) :
    Agrees (applicationWith source atom) (applicationWith source atom') tokens := by
  apply Agrees.bind (h tokens)
  intro found rest
  cases found with
  | none => exact .refl _ _
  | some lhs =>
    apply Agrees.bind (.refl _ _)
    intro left rest
    exact operands_agrees h (left.length + 1) lhs rest

theorem termWithin_agrees {room room' : Nat} (hle : room ≤ room') (scope : List String)
    (tokens : List Token) :
    Agrees (termWithin source room scope) (termWithin source room' scope) tokens := by
  induction room using room_induction generalizing room' scope tokens with
  | zero => exact .inr ⟨tokens, rfl⟩
  | succ room ih ihInner =>
    obtain ⟨more, rfl⟩ : ∃ more, room' = more + 1 := Nat.exists_eq_succ_of_ne_zero (by omega)
    rw [termWithin_succ, termWithin_succ]
    apply Agrees.bind (.refl _ _)
    intro marked rest
    cases marked with
    | true =>
      apply Agrees.bind (.refl _ _)
      intro param rest
      apply Agrees.bind (.refl _ _)
      intro dot rest
      exact .bind (ih (by omega) (param.1 :: scope) rest) fun _ _ => .refl _ _
    | false =>
      apply applicationWith_agrees
      intro rest
      exact atomWith_agrees (fun tokens => ihInner (by omega) scope tokens) scope rest


variable (source)

theorem term_apply (scope : List String) (tokens : List Token) :
    term source scope tokens = termWithin source (3 * tokens.length + 1) scope tokens :=
  rfl

/-- Without a bound there are as many frames as it takes. -/
theorem termWithin_agrees_term (room : Nat) (scope : List String) {tokens : List Token}
    (h : Terminated tokens) :
    Agrees (termWithin source room scope) (term source scope) tokens := by
  rcases Nat.le_total room (3 * tokens.length + 1) with hle | hle
  · rw [Agrees, term_apply]
    exact termWithin_agrees hle scope tokens
  · have hagrees : Agrees (termWithin source (3 * tokens.length + 1) scope)
        (termWithin source room scope) tokens := termWithin_agrees hle scope tokens
    rcases hagrees with heq | ⟨rest, hdeep⟩
    · exact .inl (heq.symm.trans (term_apply source scope tokens).symm)
    · have hstops := (termWithin_ends (3 * tokens.length + 1) scope h).of_error hdeep
      exact absurd rfl (hstops.blames (Nat.lt_succ_self _)).ne_depthExceeded

theorem queryWith_agrees {inner inner' : Parser Term}
    (hinner : ∀ tokens, Terminated tokens → Agrees inner inner' tokens) {tokens : List Token}
    (h : Terminated tokens) :
    Agrees (queryWith source inner) (queryWith source inner') tokens := by
  rcases queryWith_cases h with ⟨name, pos, pos₁, rest, rfl, hrest⟩ | hterm
  · have hagrees : Agrees (Query.definition name <$> inner >>= accept source)
        (Query.definition name <$> inner' >>= accept source) rest :=
      ((hinner rest hrest).map _).bind fun _ _ => .refl _ _
    rwa [Agrees, queryWith_definition, queryWith_definition]
  · have hagrees : Agrees (Query.term <$> inner >>= accept source)
        (Query.term <$> inner' >>= accept source) tokens :=
      ((hinner tokens h).map _).bind fun _ _ => .refl _ _
    rwa [Agrees, hterm, hterm]

end Parser

theorem terminated_of_tokenize {expr : String} {tokens : List Token}
    (h : tokenize expr = .ok tokens) : Parser.Terminated tokens := by
  obtain ⟨body, rfl, -⟩ := tokenize_eq_ok h
  exact ⟨body, _, rfl, rfl⟩

theorem parseBounded_eq_or (definitions : Definitions) (expr : String) :
    parseBounded definitions expr = parse definitions expr ∨
      parseBounded definitions expr = .error .depthExceeded := by
  rw [parseBounded, parse, parseWith, parseWith]
  cases htokens : tokenize expr with
  | error fault => exact .inl rfl
  | ok tokens =>
    let source : Source := ⟨expr, definitions⟩
    have hagrees := Parser.queryWith_agrees source
      (fun _ h => Parser.termWithin_agrees_term source Parser.maxFrames [] h)
      (terminated_of_tokenize htokens)
    rcases hagrees with heq | ⟨rest, hdeep⟩
    · exact .inl (by simp only [source, heq])
    · exact .inr (by simp only [source, hdeep])

theorem parse_of_parseBounded {definitions : Definitions} {expr : String} {query : Query}
    (h : parseBounded definitions expr = .ok query) : parse definitions expr = .ok query := by
  rcases parseBounded_eq_or definitions expr with heq | hdeep
  · exact heq.symm.trans h
  · cases h.symm.trans hdeep

end CallByValue
