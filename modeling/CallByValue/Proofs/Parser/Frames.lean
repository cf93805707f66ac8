import CallByValue.Proofs.Parser.Derivation
/-!
# The frames that a derivation takes

The rules of the grammar once more, with the number of frames that reading takes. A term takes one
frame, the body of an abstraction is read inside it, and between a term and one in parentheses there
are two more, for the application and for the atom. An application takes as many as the atom that
takes the most. Every derivation takes some number of frames, at most three for each lexeme and one
for the whole.
-/

namespace CallByValue

namespace Grammar

mutual

inductive TermTakes : Nat → List Lexeme → Named → Prop where
  | lam {frames : Nat} {param : String} {lexemes : List Lexeme} {body : Named}
      (h : TermTakes frames lexemes body) :
      TermTakes (frames + 1) (.lambda :: .ident param :: .dot :: lexemes) (.lam param body)
  | application {frames : Nat} {lexemes : List Lexeme} {tree : Named}
      (h : ApplicationTakes frames lexemes tree) : TermTakes (frames + 1) lexemes tree

inductive ApplicationTakes : Nat → List Lexeme → Named → Prop where
  | atom {frames : Nat} {lexemes : List Lexeme} {tree : Named}
      (h : AtomTakes frames lexemes tree) : ApplicationTakes frames lexemes tree
  | app {frames more : Nat} {left right : List Lexeme} {lhs rhs : Named}
      (hl : ApplicationTakes frames left lhs) (hr : AtomTakes more right rhs) :
      ApplicationTakes (max frames more) (left ++ right) (.app lhs rhs)

inductive AtomTakes : Nat → List Lexeme → Named → Prop where
  | ident {name : String} : AtomTakes 0 [.ident name] (.var name)
  | paren {frames : Nat} {lexemes : List Lexeme} {tree : Named}
      (h : TermTakes frames lexemes tree) :
      AtomTakes (frames + 2) (.lparen :: lexemes ++ [.rparen]) tree

end

theorem TermTakes.pos {frames : Nat} {lexemes : List Lexeme} {tree : Named}
    (h : TermTakes frames lexemes tree) : 0 < frames := by
  cases h <;> exact Nat.succ_pos _

mutual

theorem TermTakes.isTerm {frames : Nat} {lexemes : List Lexeme} {tree : Named} :
    TermTakes frames lexemes tree → IsTerm lexemes tree
  | .lam h => .lam h.isTerm
  | .application h => .application h.isApplication

theorem ApplicationTakes.isApplication {frames : Nat} {lexemes : List Lexeme} {tree : Named} :
    ApplicationTakes frames lexemes tree → IsApplication lexemes tree
  | .atom h => .atom h.isAtom
  | .app hl hr => .app hl.isApplication hr.isAtom

theorem AtomTakes.isAtom {frames : Nat} {lexemes : List Lexeme} {tree : Named} :
    AtomTakes frames lexemes tree → IsAtom lexemes tree
  | .ident => .ident
  | .paren h => .paren h.isTerm

end

mutual

theorem IsTerm.exists_takes {lexemes : List Lexeme} {tree : Named} : IsTerm lexemes tree →
    ∃ frames, TermTakes frames lexemes tree ∧ frames ≤ 3 * lexemes.length + 1
  | .lam h => by
    obtain ⟨frames, htakes, hle⟩ := h.exists_takes
    refine ⟨frames + 1, .lam htakes, ?_⟩
    simp only [List.length_cons]
    omega
  | .application h => by
    obtain ⟨frames, htakes, hle⟩ := h.exists_takes
    exact ⟨frames + 1, .application htakes, Nat.succ_le_succ hle⟩

theorem IsApplication.exists_takes {lexemes : List Lexeme} {tree : Named} :
    IsApplication lexemes tree →
      ∃ frames, ApplicationTakes frames lexemes tree ∧ frames ≤ 3 * lexemes.length
  | .atom h => by
    obtain ⟨frames, htakes, hle⟩ := h.exists_takes
    exact ⟨frames, .atom htakes, hle⟩
  | .app hl hr => by
    obtain ⟨frames, hleft, hle⟩ := hl.exists_takes
    obtain ⟨more, hright, hle'⟩ := hr.exists_takes
    refine ⟨max frames more, .app hleft hright, ?_⟩
    rw [List.length_append]
    omega

theorem IsAtom.exists_takes {lexemes : List Lexeme} {tree : Named} : IsAtom lexemes tree →
    ∃ frames, AtomTakes frames lexemes tree ∧ frames ≤ 3 * lexemes.length
  | .ident => ⟨0, .ident, Nat.zero_le _⟩
  | .paren h => by
    obtain ⟨frames, htakes, hle⟩ := h.exists_takes
    refine ⟨frames + 2, .paren htakes, ?_⟩
    simp only [List.length_append, List.length_cons]
    omega

end

end Grammar

end CallByValue
