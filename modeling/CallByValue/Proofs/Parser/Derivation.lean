import CallByValue.Grammar
/-!
# Facts about derivations

The three rules of the grammar refer to each other. Most facts about the rows they derive are one
statement for all three, and `Uniform` gathers the four cases that such a statement has. What the
parser needs to know is little: a derived row is not empty, it holds neither an equals sign nor the
end of input, and it holds the names of all binders in its tree.
-/

namespace CallByValue

namespace Named

def params : Named → List String
  | .var _ => []
  | .lam param body => param :: body.params
  | .app lhs rhs => lhs.params ++ rhs.params

end Named

namespace Grammar

/-- A statement about rows and their trees that every rule of the grammar carries on. -/
structure Uniform (P : List Lexeme → Named → Prop) : Prop where
  lam : ∀ {param lexemes body}, P lexemes body →
    P (.lambda :: .ident param :: .dot :: lexemes) (.lam param body)
  app : ∀ {left right lhs rhs}, P left lhs → P right rhs → P (left ++ right) (.app lhs rhs)
  ident : ∀ {name}, P [.ident name] (.var name)
  paren : ∀ {lexemes tree}, P lexemes tree → P (.lparen :: lexemes ++ [.rparen]) tree

mutual

theorem IsTerm.uniform {P : List Lexeme → Named → Prop} (hP : Uniform P) {lexemes : List Lexeme}
    {tree : Named} : IsTerm lexemes tree → P lexemes tree
  | .lam h => hP.lam (h.uniform hP)
  | .application h => h.uniform hP

theorem IsApplication.uniform {P : List Lexeme → Named → Prop} (hP : Uniform P)
    {lexemes : List Lexeme} {tree : Named} : IsApplication lexemes tree → P lexemes tree
  | .atom h => h.uniform hP
  | .app hl hr => hP.app (hl.uniform hP) (hr.uniform hP)

theorem IsAtom.uniform {P : List Lexeme → Named → Prop} (hP : Uniform P) {lexemes : List Lexeme}
    {tree : Named} : IsAtom lexemes tree → P lexemes tree
  | .ident => hP.ident
  | .paren h => hP.paren (h.uniform hP)

end

/-- What a derived row has in common with every other. -/
structure IsRow (lexemes : List Lexeme) (tree : Named) : Prop where
  ne_nil : lexemes ≠ []
  plain : ∀ lexeme ∈ lexemes, lexeme ≠ .equal ∧ lexeme ≠ .eof
  mem_params : ∀ param ∈ tree.params, .ident param ∈ lexemes

theorem IsRow.uniform : Uniform IsRow where
  lam := by
    intro param lexemes body ih
    refine ⟨by simp, by simpa using ih.plain, ?_⟩
    intro name hname
    rcases List.mem_cons.mp hname with rfl | hname
    · simp
    · simpa using Or.inr (ih.mem_params name hname)
  app := by
    intro left right lhs rhs ihl ihr
    refine ⟨by simp [ihl.ne_nil], ?_, ?_⟩
    · intro lexeme hmem
      exact (List.mem_append.mp hmem).elim (ihl.plain lexeme) (ihr.plain lexeme)
    · intro name hname
      exact List.mem_append.mpr
        ((List.mem_append.mp hname).imp (ihl.mem_params name) (ihr.mem_params name))
  ident := ⟨by simp, by simp, by simp [Named.params]⟩
  paren := by
    intro lexemes tree ih
    refine ⟨by simp, ?_, ?_⟩
    · intro lexeme hmem
      simp only [List.cons_append, List.mem_cons, List.mem_append, List.not_mem_nil,
        or_false] at hmem
      rcases hmem with rfl | hmem | rfl
      · simp
      · exact ih.plain lexeme hmem
      · simp
    · intro name hname
      simpa using ih.mem_params name hname

theorem IsTerm.isRow {lexemes : List Lexeme} {tree : Named} (h : IsTerm lexemes tree) :
    IsRow lexemes tree :=
  h.uniform IsRow.uniform

theorem IsAtom.isRow {lexemes : List Lexeme} {tree : Named} (h : IsAtom lexemes tree) :
    IsRow lexemes tree :=
  h.uniform IsRow.uniform

end Grammar

end CallByValue
