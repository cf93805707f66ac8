import CallByValue.Proofs.Parser.Acceptance
import CallByValue.Proofs.Parser.Enclosing
import CallByValue.Proofs.Parser.ViablePrefix
/-!
# Tokens that offend

A token can offend in two ways. It is misplaced if no query starts with the tokens up to it, and a
name is unresolved if it is used where no binder encloses it and nothing defines it. Neither way
mentions the parser, and whether a token offends does not depend on what comes after it, but for the
equals sign that makes the first name one that is defined.

A parser that reads from left to right stands at a place that the reader of viable rows has reached,
and all tokens up to there are clean. The next token does not offend if it may come there and, being a
name, stands for something. In both other cases it is the first to offend.
-/

namespace CallByValue

open Grammar

/-- No query starts with the tokens up to number `k`. -/
def Misplaced (tokens : List Token) (k : Nat) : Prop :=
  k < tokens.length ∧ ¬ Viable ((tokens.take (k + 1)).map Token.kind)

/-- Token number `k` is a name in a place where one may stand. It is neither the name of a binder nor
the one that the line defines, no binder encloses it, and nothing defines it. -/
def Unresolved (definitions : Definitions) (tokens : List Token) (k : Nat) : Prop :=
  ∃ front name pos back, tokens = front ++ ⟨.ident name, pos⟩ :: back ∧ front.length = k ∧
    Viable ((tokens.take (k + 1)).map Token.kind) ∧
    (front.map Token.lexeme).getLast? ≠ some .lambda ∧
    ¬ (front = [] ∧ (back.map Token.lexeme).head? = some .equal) ∧
    ¬ BoundAfter (front.map Token.lexeme) name ∧ definitions.find? name = none

def Offends (definitions : Definitions) (tokens : List Token) (k : Nat) : Prop :=
  Misplaced tokens k ∨ Unresolved definitions tokens k

/-- A diagnostic blames the first token that offends, in the way it does. -/
def Fault.BlamesFirst (definitions : Definitions) (tokens : List Token) (fault : Fault) : Prop :=
  ∀ d, fault = .diagnostic d → ∃ k token, tokens[k]? = some token ∧ d.start = token.pos ∧
    (∀ j < k, ¬ Offends definitions tokens j) ∧
    (Misplaced tokens k ∧ d.kind = .unexpected ∨
      Unresolved definitions tokens k ∧ d.kind = .unbound)

theorem Misplaced.not_unresolved {definitions : Definitions} {tokens : List Token} {k : Nat}
    (h : Misplaced tokens k) : ¬ Unresolved definitions tokens k := by
  intro hunresolved
  obtain ⟨front, name, pos, back, -, -, hviable, -⟩ := hunresolved
  exact h.2 hviable

theorem Offends.lt_length {definitions : Definitions} {tokens : List Token} {k : Nat}
    (h : Offends definitions tokens k) : k < tokens.length := by
  rcases h with hmisplaced | ⟨front, name, pos, back, rfl, rfl, -⟩
  · exact hmisplaced.1
  · simp

namespace Parser

/-! ### Where the term of a line starts -/

/-- The tokens up to where the term of a query starts: a name and an equals sign, or none. -/
inductive Leads : (lead body : List Token) → Prop where
  | definition {name : String} {pos pos₁ : Nat} {body : List Token} :
      Leads [⟨.ident name, pos⟩, ⟨.equal, pos₁⟩] body
  | term {body : List Token} (h : ¬ [.ident, .equal] <+: body.map Token.kind) : Leads [] body

theorem definition_or_leads (tokens : List Token) :
    (∃ name pos pos₁ rest, tokens = ⟨.ident name, pos⟩ :: ⟨.equal, pos₁⟩ :: rest) ∨
      Leads [] tokens := by
  by_cases h : [.ident, .equal] <+: tokens.map Token.kind
  · apply Or.inl
    obtain ⟨back, hback⟩ := h
    match tokens, hback with
    | ⟨.ident name, pos⟩ :: ⟨.equal, pos₁⟩ :: rest, _ => exact ⟨name, pos, pos₁, rest, rfl⟩
  · exact .inr (.term h)

theorem Leads.viable_iff {lead body front : List Token} (h : Leads lead body)
    (hfront : front <+: body) :
    Viable ((lead ++ front).map Token.kind) ↔
      (Place.start.read (front.map Token.kind)).isSome = true := by
  have hkinds : front.map Token.kind = (front.map Token.lexeme).map Lexeme.kind := by
    rw [List.map_map]
    rfl
  cases h with
  | definition =>
    rw [hkinds, ← viable_definition_iff, ← hkinds]
    rfl
  | term h =>
    rw [List.nil_append, hkinds]
    apply viable_term_iff
    rw [← hkinds]
    intro hequal
    exact h (hequal.trans (hfront.map Token.kind))

/-- The tokens of a line, cut where its term starts, and what they are read against. -/
structure Line where
  source : Source
  lead : List Token
  body : List Token
  leads : Leads lead body

def Line.tokens (line : Line) : List Token :=
  line.lead ++ line.body

def Line.Offends (line : Line) (k : Nat) : Prop :=
  CallByValue.Offends line.source.definitions line.tokens k

def Line.BlamesFirst (line : Line) (fault : Fault) : Prop :=
  fault.BlamesFirst line.source.definitions line.tokens

theorem Line.blamesFirst_of_ne (line : Line) {fault : Fault} (h : ∀ d, fault ≠ .diagnostic d) :
    line.BlamesFirst fault := by
  intro d hd
  exact absurd hd (h d)

/-- A binder encloses what comes behind `front`, which was read of the term. -/
def Line.Binds (line : Line) (front : List Token) (name : String) : Prop :=
  BoundAfter ((line.lead ++ front).map Token.lexeme) name

/-! ### How far a reader has come -/

variable {line : Line} {front rest : List Token} {token : Token} {place : Place}

variable (line) in
/-- `front` was read of the term, up to `place`. No token up to there offends. -/
structure Reached (front rest : List Token) (place : Place) : Prop where
  body_eq : line.body = front ++ rest
  read : Place.start.read (front.map Token.kind) = some place
  clean : ∀ k < line.lead.length + front.length, ¬ line.Offends k

variable (line) in
/-- The token is no name, or names a binder, or is bound or defined. -/
def Resolves (front : List Token) (place : Place) (token : Token) : Prop :=
  ∀ name, token.lexeme = .ident name → place.stage = .binder ∨ line.Binds front name ∨
    line.source.definitions.find? name ≠ none

theorem Reached.take_eq (h : Reached line front (token :: rest) place) :
    line.tokens.take (line.lead.length + front.length + 1) = line.lead ++ (front ++ [token]) := by
  have heq : line.tokens = (line.lead ++ (front ++ [token])) ++ rest := by
    rw [Line.tokens, h.body_eq]
    simp
  have hlength : (line.lead ++ (front ++ [token])).length
      = line.lead.length + front.length + 1 := by
    simp [Nat.add_assoc]
  rw [heq, List.take_left' hlength]

theorem Reached.viable_iff (h : Reached line front (token :: rest) place) :
    Viable ((line.tokens.take (line.lead.length + front.length + 1)).map Token.kind) ↔
      (place.next token.kind).isSome = true := by
  have hfront : front ++ [token] <+: line.body := ⟨rest, by simp [h.body_eq]⟩
  rw [h.take_eq, line.leads.viable_iff hfront, List.map_append, List.map_singleton,
    Place.read_concat, h.read, Option.bind_some]

theorem Reached.getLast?_iff (h : Reached line front rest place) :
    ((line.lead ++ front).map Token.lexeme).getLast? = some .lambda ↔ place.stage = .binder := by
  rw [Place.read_binder_iff h.read]
  rcases List.eq_nil_or_concat front with rfl | ⟨init, last, rfl⟩
  · obtain ⟨source, lead, body, leads⟩ := line
    cases leads <;> simp
  · obtain ⟨lexeme, pos⟩ := last
    cases lexeme <;> simp [Token.kind, Lexeme.kind]

theorem Reached.not_unresolved (h : Reached line front (token :: rest) place)
    (hresolves : Resolves line front place token) :
    ¬ Unresolved line.source.definitions line.tokens (line.lead.length + front.length) := by
  intro hunresolved
  obtain ⟨front', name, pos, back, heq, hlength, -, hlast, -, hbound, hfind⟩ := hunresolved
  rw [Line.tokens, h.body_eq, ← List.append_assoc] at heq
  obtain ⟨rfl, hback⟩ := List.append_inj heq (by rw [hlength, List.length_append])
  cases hback
  rcases hresolves name rfl with hbinder | hbinds | hdefined
  · exact hlast (h.getLast?_iff.mpr hbinder)
  · exact hbound hbinds
  · exact hdefined hfind

theorem Reached.next (h : Reached line front (token :: rest) place) {place' : Place}
    (hnext : place.next token.kind = some place') (hresolves : Resolves line front place token) :
    Reached line (front ++ [token]) rest place' := by
  refine ⟨by simp [h.body_eq], ?_, ?_⟩
  · rw [List.map_append, List.map_singleton, Place.read_concat, h.read]
    exact hnext
  · intro k hk hoffends
    rw [List.length_append, List.length_singleton] at hk
    by_cases hlt : k < line.lead.length + front.length
    · exact h.clean k hlt hoffends
    · obtain rfl : k = line.lead.length + front.length := by omega
      rcases hoffends with ⟨-, hviable⟩ | hunresolved
      · rw [h.viable_iff, hnext] at hviable
        exact hviable rfl
      · exact h.not_unresolved hresolves hunresolved

theorem Reached.getElem? (h : Reached line front (token :: rest) place) :
    line.tokens[line.lead.length + front.length]? = some token := by
  simp [Line.tokens, h.body_eq]

theorem Reached.blames_token (h : Reached line front (token :: rest) place)
    (hnext : place.next token.kind = none) {d : Diagnostic} (hstart : d.start = token.pos)
    (hkind : d.kind = .unexpected) : line.BlamesFirst (.diagnostic d) := by
  intro d' hd
  cases hd
  refine ⟨_, token, h.getElem?, hstart, h.clean, .inl ⟨⟨?_, ?_⟩, hkind⟩⟩
  · exact (List.getElem?_eq_some_iff.mp h.getElem?).1
  · rw [h.viable_iff, hnext]
    nofun

theorem Reached.blames_name {name : String} {pos : Nat}
    (h : Reached line front (⟨.ident name, pos⟩ :: rest) place)
    (hnext : (place.next .ident).isSome = true) (hplace : place.stage ≠ .binder)
    (hbound : ¬ line.Binds front name) (hfind : line.source.definitions.find? name = none)
    {d : Diagnostic} (hstart : d.start = pos) (hkind : d.kind = .unbound) :
    line.BlamesFirst (.diagnostic d) := by
  intro d' hd
  cases hd
  refine ⟨_, ⟨.ident name, pos⟩, h.getElem?, hstart, h.clean, .inr ⟨?_, hkind⟩⟩
  refine ⟨line.lead ++ front, name, pos, rest, ?_, List.length_append, ?_, ?_, ?_, hbound, hfind⟩
  · rw [Line.tokens, h.body_eq, List.append_assoc]
  · exact h.viable_iff.mpr hnext
  · intro hlast
    exact hplace (h.getLast?_iff.mp hlast)
  · intro hdefines
    obtain ⟨hnil, hequal⟩ := hdefines
    obtain ⟨hlead, rfl⟩ := List.append_eq_nil_iff.mp hnil
    have hterm := line.leads
    rw [hlead, h.body_eq] at hterm
    -- The line is no definition, so no equals sign comes behind its first name.
    cases hterm with
    | term hbody =>
      match rest, hequal with
      | ⟨.equal, pos₁⟩ :: rest, _ => exact hbody ⟨rest.map Token.kind, rfl⟩

variable (line) in
/-- Neither the name that a line defines nor the equals sign behind it offends. -/
theorem reached_start : Reached line [] line.body .start := by
  refine ⟨rfl, rfl, ?_⟩
  intro k hk hoffends
  obtain ⟨source, lead, body, leads⟩ := line
  cases leads with
  | term => simp at hk
  | @definition name pos pos₁ =>
    have hviable : Viable (.ident :: .equal :: ([] : List Lexeme).map Lexeme.kind) :=
      viable_definition_iff.mpr rfl
    rcases hoffends with ⟨-, hnot⟩ | ⟨front, name', pos', back, heq, rfl, -, -, hdefines, -⟩
    · apply hnot
      apply hviable.of_isPrefix
      match k, hk with
      | 0, _ => exact ⟨[.equal], rfl⟩
      | 1, _ => exact ⟨[], rfl⟩
    · match front, hk with
      | [], _ =>
        cases heq
        exact hdefines ⟨rfl, rfl⟩
      | [_], _ => cases heq

end Parser

end CallByValue
