import CallByValue.Grammar
import Mathlib.Data.List.Infix
/-!
# Enclosing binders

A binder reaches as far to the right as it can: to the end of the parentheses it stands in, or to the
end of the line. So it can be told from the tokens in front of a name alone whether a binder encloses
the name, without a tree: no parenthesis that was open at the binder may be closed in between.
-/

namespace CallByValue

namespace Grammar

/-- Nowhere along the row are more parentheses closed than were opened in it. -/
def StaysOpen (lexemes : List Lexeme) : Prop :=
  ∀ part, part <+: lexemes → part.count .rparen ≤ part.count .lparen

/-- A binder of the given name in `front` still reaches what comes next. -/
def BoundAfter (front : List Lexeme) (name : String) : Prop :=
  ∃ before between, front = before ++ .lambda :: .ident name :: between ∧ StaysOpen between

/-- Every parenthesis that is opened is closed, and no other. -/
structure Balanced (lexemes : List Lexeme) : Prop where
  staysOpen : StaysOpen lexemes
  count_eq : lexemes.count .rparen = lexemes.count .lparen

theorem StaysOpen.left {front back : List Lexeme} (h : StaysOpen (front ++ back)) :
    StaysOpen front := by
  intro part hpart
  exact h part (hpart.trans (List.prefix_append front back))

theorem StaysOpen.append {front back : List Lexeme} (hfront : StaysOpen front)
    (hback : StaysOpen back) : StaysOpen (front ++ back) := by
  intro part hpart
  obtain ⟨rest, hrest⟩ := hpart
  rcases List.append_eq_append_iff.mp hrest with ⟨more, rfl, -⟩ | ⟨more, rfl, rfl⟩
  · exact hfront part (List.prefix_append part more)
  · have hall := hfront front List.prefix_rfl
    have hmore := hback more (List.prefix_append more rest)
    rw [List.count_append, List.count_append]
    omega

theorem staysOpen_of_notMem {lexemes : List Lexeme} (h : .rparen ∉ lexemes) :
    StaysOpen lexemes := by
  intro part hpart
  have hnone : part.count .rparen = 0 := List.count_eq_zero.mpr fun hmem => h (hpart.subset hmem)
  omega

theorem balanced_of_notMem {lexemes : List Lexeme} (hclose : .rparen ∉ lexemes)
    (hopen : .lparen ∉ lexemes) : Balanced lexemes := by
  refine ⟨staysOpen_of_notMem hclose, ?_⟩
  rw [List.count_eq_zero.mpr hclose, List.count_eq_zero.mpr hopen]

theorem Balanced.append {front back : List Lexeme} (hfront : Balanced front)
    (hback : Balanced back) : Balanced (front ++ back) := by
  refine ⟨hfront.staysOpen.append hback.staysOpen, ?_⟩
  rw [List.count_append, List.count_append, hfront.count_eq, hback.count_eq]

theorem Balanced.paren {inner : List Lexeme} (h : Balanced inner) :
    Balanced (.lparen :: inner ++ [.rparen]) := by
  constructor
  · intro part hpart
    rcases List.prefix_concat_iff.mp hpart with rfl | hpart
    · simp [h.count_eq]
    · rcases List.prefix_cons_iff.mp hpart with rfl | ⟨more, rfl, hmore⟩
      · exact Nat.le_refl _
      · have hle := h.staysOpen more hmore
        simp only [List.count_cons]
        simp
        omega
  · simp [h.count_eq]

/-- A row behind others brings in its own binders, and takes away none if it stays open. A binder mark
at the end of `front` would take its name from the row. -/
theorem boundAfter_append {front row : List Lexeme} {name : String}
    (hlast : front.getLast? ≠ some .lambda) (hrow : StaysOpen row) :
    BoundAfter (front ++ row) name ↔ BoundAfter front name ∨ BoundAfter row name := by
  constructor
  · intro h
    obtain ⟨before, between, heq, hopen⟩ := h
    rcases List.append_eq_append_iff.mp heq with ⟨middle, rfl, hrest⟩ | ⟨middle, rfl, hrest⟩
    · exact .inr ⟨middle, between, hrest, hopen⟩
    · match middle, hrest with
      | [], hrest => exact .inr ⟨[], between, hrest.symm, hopen⟩
      | [lexeme], hrest =>
        cases (List.cons.inj hrest).1
        exact absurd List.getLast?_concat hlast
      | lexeme :: lexeme' :: middle, hrest =>
        cases hrest
        exact .inl ⟨before, middle, rfl, hopen.left⟩
  · intro h
    rcases h with ⟨before, between, rfl, hopen⟩ | ⟨before, between, rfl, hopen⟩
    · exact ⟨before, between ++ row, by simp, hopen.append hrow⟩
    · exact ⟨front ++ before, between, by simp, hopen⟩

theorem not_boundAfter_of_notMem {front : List Lexeme} (h : .lambda ∉ front) (name : String) :
    ¬ BoundAfter front name := by
  intro hbound
  obtain ⟨before, between, rfl, -⟩ := hbound
  simp at h

theorem boundAfter_binder_iff {param name : String} :
    BoundAfter [.lambda, .ident param, .dot] name ↔ name = param := by
  constructor
  · intro h
    obtain ⟨before, between, heq, -⟩ := h
    match before, heq with
    | [], heq =>
      cases heq
      rfl
    | [_], heq => cases heq
    | _ :: _ :: before, heq =>
      have hlength := congrArg List.length heq
      simp at hlength
      omega
  · intro h
    subst h
    exact ⟨[], [.dot], rfl, staysOpen_of_notMem (by simp)⟩

theorem not_boundAfter_paren {inner : List Lexeme} (h : Balanced inner) (name : String) :
    ¬ BoundAfter (.lparen :: inner ++ [.rparen]) name := by
  intro hbound
  obtain ⟨before, between, heq, hopen⟩ := hbound
  cases before with
  | nil => cases heq
  | cons lexeme before =>
    obtain ⟨-, heq⟩ := List.cons.inj heq
    have hbefore : before <+: inner := by
      rcases List.append_eq_append_iff.mp heq with ⟨middle, rfl, hrest⟩ | ⟨middle, rfl, -⟩
      · cases middle with
        | nil => cases hrest
        | cons lexeme middle => simp at hrest
      · exact List.prefix_append before middle
    have hpart := h.staysOpen before hbefore
    have hall := h.count_eq
    have hclosed := congrArg (List.count .rparen) heq
    have hopened := congrArg (List.count .lparen) heq
    have hrest := hopen between List.prefix_rfl
    simp at hclosed hopened
    omega

end Grammar

end CallByValue
