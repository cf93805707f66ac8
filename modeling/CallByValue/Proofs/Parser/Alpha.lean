import CallByValue.Proofs.Parser.Trees
/-!
# Equal terms and alpha-equivalent trees

Alpha-equivalence compares two named trees under a stack of pairs of binders, and elaboration
resolves the names of one tree against one stack of binders. The stacks of two trees are the two
sides of a stack of pairs. Names that are bound on both sides are the same variable exactly if they
stand for binders at the same distance, so two trees are alpha-equivalent exactly if their terms are
equal up to binder names.
-/

namespace CallByValue

namespace Named

/-! ### Variables -/

theorem sameVariable_cons {binders : List (String × String)} {p q x y : String} :
    SameVariable ((p, q) :: binders) x y ↔
      p = x ∧ q = y ∨ p ≠ x ∧ q ≠ y ∧ SameVariable binders x y := by
  constructor
  · intro h
    cases h with
    | here => exact .inl ⟨rfl, rfl⟩
    | there hx hy h => exact .inr ⟨hx.symm, hy.symm, h⟩
  · rintro (⟨rfl, rfl⟩ | ⟨hp, hq, h⟩)
    · exact .here
    · exact .there hp.symm hq.symm h

theorem sameVariable_iff {binders : List (String × String)} {x y : String} {i j : Nat}
    (hx : (binders.map Prod.fst).idxOf? x = some i)
    (hy : (binders.map Prod.snd).idxOf? y = some j) : SameVariable binders x y ↔ i = j := by
  induction binders generalizing i j with
  | nil => cases hx
  | cons pair binders ih =>
    obtain ⟨p, q⟩ := pair
    rw [List.map_cons, List.idxOf?_cons] at hx hy
    rw [sameVariable_cons]
    -- a pair that only one of the names matches keeps them apart
    by_cases hp : p = x <;> by_cases hq : q = y <;>
      simp only [hp, hq, beq_iff_eq, if_true, if_false, Option.some.injEq,
        Option.map_eq_some_iff] at hx hy
    · simp [hp, hq, ← hx, ← hy]
    · obtain ⟨j, -, rfl⟩ := hy
      simp [hp, hq, ← hx]
    · obtain ⟨i, -, rfl⟩ := hx
      simp [hp, hq, ← hy]
    · obtain ⟨i, hi, rfl⟩ := hx
      obtain ⟨j, hj, rfl⟩ := hy
      simp [hp, hq, ih hi hj]

/-! ### Trees -/

section Rules

variable {binders : List (String × String)}

theorem alphaEquiv_var {x y : String} :
    AlphaEquiv binders (.var x) (.var y) ↔ SameVariable binders x y := by
  constructor
  · rintro ⟨h⟩
    exact h
  · exact .var

theorem alphaEquiv_lam {p q : String} {b c : Named} :
    AlphaEquiv binders (.lam p b) (.lam q c) ↔ AlphaEquiv ((p, q) :: binders) b c := by
  constructor
  · rintro ⟨⟩
    assumption
  · exact .lam

theorem alphaEquiv_app {l l' r r' : Named} :
    AlphaEquiv binders (.app l r) (.app l' r') ↔
      AlphaEquiv binders l l' ∧ AlphaEquiv binders r r' := by
  constructor
  · rintro ⟨⟩
    exact ⟨‹_›, ‹_›⟩
  · rintro ⟨hl, hr⟩
    exact .app hl hr

end Rules

theorem alphaEquiv_iff {m n : Named} {t u : Term} (binders : List (String × String))
    (ht : m.elaborate .empty (binders.map Prod.fst) = some t)
    (hu : n.elaborate .empty (binders.map Prod.snd) = some u) :
    AlphaEquiv binders m n ↔ t.AlphaEq u := by
  induction m generalizing binders n t u with
  | var x =>
    obtain ⟨i, hi, rfl⟩ := elaborate_empty_var_eq_some.mp ht
    cases n with
    | var y =>
      obtain ⟨j, hj, rfl⟩ := elaborate_empty_var_eq_some.mp hu
      rw [alphaEquiv_var, sameVariable_iff hi hj, Term.alphaEq_var]
    | lam q c =>
      obtain ⟨_, -, rfl⟩ := elaborate_lam_eq_some.mp hu
      exact ⟨by rintro ⟨⟩, by rintro ⟨⟩⟩
    | app l r =>
      obtain ⟨_, _, -, -, rfl⟩ := elaborate_app_eq_some.mp hu
      exact ⟨by rintro ⟨⟩, by rintro ⟨⟩⟩
  | lam p b ih =>
    obtain ⟨b', hb, rfl⟩ := elaborate_lam_eq_some.mp ht
    cases n with
    | var y =>
      obtain ⟨j, -, rfl⟩ := elaborate_empty_var_eq_some.mp hu
      exact ⟨by rintro ⟨⟩, by rintro ⟨⟩⟩
    | lam q c =>
      obtain ⟨c', hc, rfl⟩ := elaborate_lam_eq_some.mp hu
      rw [alphaEquiv_lam, ih ((p, q) :: binders) hb hc, Term.alphaEq_lam]
    | app l r =>
      obtain ⟨_, _, -, -, rfl⟩ := elaborate_app_eq_some.mp hu
      exact ⟨by rintro ⟨⟩, by rintro ⟨⟩⟩
  | app l r ihl ihr =>
    obtain ⟨l', r', hl, hr, rfl⟩ := elaborate_app_eq_some.mp ht
    cases n with
    | var y =>
      obtain ⟨j, -, rfl⟩ := elaborate_empty_var_eq_some.mp hu
      exact ⟨by rintro ⟨⟩, by rintro ⟨⟩⟩
    | lam q c =>
      obtain ⟨_, -, rfl⟩ := elaborate_lam_eq_some.mp hu
      exact ⟨by rintro ⟨⟩, by rintro ⟨⟩⟩
    | app l₁ r₁ =>
      obtain ⟨l₁', r₁', hl₁, hr₁, rfl⟩ := elaborate_app_eq_some.mp hu
      rw [alphaEquiv_app, ihl binders hl hl₁, ihr binders hr hr₁, Term.alphaEq_app]

end Named

open Grammar

/-- **Lines are read as equal terms exactly if they are alpha-equivalent.** With nothing defined, two
lines that are read as terms are writings of one named tree each. Their terms are equal up to binder
names exactly if the trees are equal up to a consistent choice of binder names. -/
theorem terms_alphaEq_iff_trees_alphaEquiv {expr₁ expr₂ : String} {t₁ t₂ : Term}
    (h₁ : parse .empty expr₁ = .ok (.term t₁)) (h₂ : parse .empty expr₂ = .ok (.term t₂)) :
    ∃ tree₁ tree₂,
      (∀ tree, Derives expr₁ tree ↔ tree = tree₁) ∧
      (∀ tree, Derives expr₂ tree ↔ tree = tree₂) ∧
      (t₁.AlphaEq t₂ ↔ Named.AlphaEquiv [] tree₁ tree₂) := by
  obtain ⟨tree₁, htree₁, ht₁⟩ := standsFor_term_iff.mp (parse_eq_ok_iff.mp h₁)
  obtain ⟨tree₂, htree₂, ht₂⟩ := standsFor_term_iff.mp (parse_eq_ok_iff.mp h₂)
  refine ⟨tree₁, tree₂, ?_, ?_, ?_⟩
  · intro tree
    exact ⟨fun h => h.unique htree₁, fun h => h ▸ htree₁⟩
  · intro tree
    exact ⟨fun h => h.unique htree₂, fun h => h ▸ htree₂⟩
  · exact (Named.alphaEquiv_iff [] ht₁ ht₂).symm

/-- The outer binder is hidden in the first line and unused in the second, where the name of the
innermost binder is that of the outer one. -/
theorem terms_alphaEq_iff_trees_alphaEquiv_hidden :
    ∃ tree₁ tree₂, Derives "\\x. \\x. x (\\y. x)" tree₁ ∧ Derives "(\\a. (\\b. (b) (\\a. b)))" tree₂ ∧
      Named.AlphaEquiv [] tree₁ tree₂ := by
  have hread₁ : parse .empty "\\x. \\x. x (\\y. x)"
      = .ok (.term (.lam "x" (.lam "x" (.app (.var 0) (.lam "y" (.var 1)))))) := by
    decide +kernel
  have hread₂ : parse .empty "(\\a. (\\b. (b) (\\a. b)))"
      = .ok (.term (.lam "a" (.lam "b" (.app (.var 0) (.lam "a" (.var 1)))))) := by
    decide +kernel
  obtain ⟨tree₁, tree₂, htree₁, htree₂, hiff⟩ := terms_alphaEq_iff_trees_alphaEquiv hread₁ hread₂
  exact ⟨tree₁, tree₂, (htree₁ _).mpr rfl, (htree₂ _).mpr rfl, hiff.mp (by decide)⟩

end CallByValue
