import CallByValue.Proofs.Parser.Acceptance
import CallByValue.Proofs.Parser.Related
/-!
# A line is read by its own names

Of the definitions in force a line uses no more than those of the names that stand in it, since a
definition is looked up only for a name that was just read. So two sets of definitions that differ
only in other names give the same query, or the same fault in the same place; and where they give
related terms for the names of the line, the queries are related.
-/

namespace CallByValue

/-- The names that stand in a line. There are none if the line cannot be cut into tokens. -/
def namesIn (expr : String) : List String :=
  match tokenize expr with
  | .ok tokens => tokens.filterMap Token.name?
  | .error _ => []

/-- The name that a line is to define: the first token, if an equals sign follows it. -/
def definedIn? (expr : String) : Option String :=
  match tokenize expr with
  | .ok (⟨.ident name, _⟩ :: ⟨.equal, _⟩ :: _) => some name
  | _ => none

theorem mem_namesIn {expr : String} {tokens : List Token} (h : tokenize expr = .ok tokens)
    {name : String} {pos : Nat} (hmem : ⟨.ident name, pos⟩ ∈ tokens) : name ∈ namesIn expr := by
  rw [namesIn, h]
  exact List.mem_filterMap.mpr ⟨⟨.ident name, pos⟩, hmem, rfl⟩

theorem exists_tokenize_of_definedIn? {expr name : String} (h : definedIn? expr = some name) :
    ∃ pos later, tokenize expr = .ok (⟨.ident name, pos⟩ :: later) := by
  rw [definedIn?] at h
  split at h
  · next htokens =>
    cases h
    exact ⟨_, _, htokens⟩
  · cases h

theorem mem_namesIn_of_definedIn? {expr name : String} (h : definedIn? expr = some name) :
    name ∈ namesIn expr := by
  obtain ⟨pos, later, htokens⟩ := exists_tokenize_of_definedIn? h
  exact mem_namesIn htokens List.mem_cons_self

/-- Where the names of a line are defined as related terms, it is read as related queries, or blamed
in the same words. -/
theorem parseBounded_related {R : Term → Term → Prop} (hR : Term.Compatible R) {expr : String}
    {definitions other : Definitions}
    (h : ∀ name ∈ namesIn expr, Option.Rel R (definitions.find? name) (other.find? name)) :
    (∃ p q, parseBounded definitions expr = .ok p ∧ parseBounded other expr = .ok q ∧
      Query.Related R p q) ∨
    ∃ fault, parseBounded definitions expr = .error fault ∧
      parseBounded other expr = .error fault := by
  rw [parseBounded, parseBounded, parseWith, parseWith]
  cases htokens : tokenize expr with
  | error fault => exact .inr ⟨fault, rfl, rfl⟩
  | ok tokens =>
    have hfind (name : String) (pos : Nat) (hmem : ⟨.ident name, pos⟩ ∈ tokens) :
        Option.Rel R (definitions.find? name) (other.find? name) :=
      h name (mem_namesIn htokens hmem)
    have halike : Alike (Query.Related R) (Parser.Together tokens)
        (Parser.queryWith ⟨expr, definitions⟩
          (Parser.termWithin ⟨expr, definitions⟩ Parser.maxFrames []))
        (Parser.queryWith ⟨expr, other⟩ (Parser.termWithin ⟨expr, other⟩ Parser.maxFrames []))
        tokens tokens := by
      apply Parser.queryWith_alike _ (terminated_of_tokenize htokens)
      intro rest hsuffix
      exact Parser.termWithin_alike hR hfind Parser.maxFrames [] hsuffix
    rcases halike.cases with ⟨p, rest, q, rest', hrun, hrun', hrelated, -⟩ |
      ⟨fault, rest, rest', hrun, hrun', -⟩
    · refine .inl ⟨p, q, ?_, ?_, hrelated⟩
      · simp only [hrun]
      · simp only [hrun']
    · refine .inr ⟨fault, ?_, ?_⟩
      · simp only [hrun]
      · simp only [hrun']

theorem parseBounded_congr {expr : String} {definitions other : Definitions}
    (h : ∀ name ∈ namesIn expr, definitions.find? name = other.find? name) :
    parseBounded definitions expr = parseBounded other expr := by
  have hsame (name : String) (hname : name ∈ namesIn expr) :
      Option.Rel Eq (definitions.find? name) (other.find? name) := by
    rw [h name hname]
    cases other.find? name with
    | none => exact .none
    | some t => exact .some rfl
  rcases parseBounded_related .eq hsame with ⟨p, q, hp, hq, hrelated⟩ | ⟨fault, hfault, hfault'⟩
  · rw [hp, hq, Query.related_eq_iff.mp hrelated]
  · rw [hfault, hfault']

theorem definedIn?_of_parseBounded {definitions : Definitions} {expr name : String} {body : Term}
    (h : parseBounded definitions expr = .ok (.definition name body)) :
    definedIn? expr = some name := by
  obtain ⟨tokens, stop, named, htokens, hderives, hquery⟩ :=
    parse_eq_ok_iff.mp (parse_of_parseBounded h)
  obtain ⟨name?, tree⟩ := named
  obtain ⟨t, -, hnamed⟩ := Option.map_eq_some_iff.mp hquery
  generalize hlexemes : tokens.map Token.lexeme = lexemes at hderives
  cases hderives with
  | term h => cases hnamed
  | definition h =>
    cases hnamed
    obtain ⟨pos₁, rest₁, rfl, hrest⟩ := Parser.exists_of_map_lexeme_eq_cons hlexemes
    obtain ⟨pos₂, rest₂, rfl, -⟩ := Parser.exists_of_map_lexeme_eq_cons hrest
    rw [definedIn?, htokens]
    rfl

end CallByValue
