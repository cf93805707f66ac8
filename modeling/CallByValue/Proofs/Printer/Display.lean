import CallByValue.Named
import CallByValue.Proofs.Ending
import CallByValue.Proofs.Lexing
import CallByValue.Proofs.Term.Free
import CallByValue.Term.Printer
/-!
# The tree that is shown

A printer shows a term as a named tree: each variable under the name of its binder, and each binder
under a name that captures none of the variables further out. What keeps the tree true to the term
is that a name in use is never hidden: for every free variable of a term, the name it is shown under
stands for no binder further in. `Showable` holds this together with the names being words, and it
passes from a term to its parts. Resolving the names of the tree then gives the term back.

Some terms have no text, but that is a defect and never an error of whoever wrote them.
-/

namespace CallByValue

namespace Term

/-! ### Names of binders -/

def shownName (param : String) (body : Term) (names : List String) : String :=
  match param.toList.getLast? with
  | some c => freshen (referenced body names) c param
  | none => param

theorem exists_getLast?_of_ne_empty {s : String} (h : s ≠ "") : ∃ c, s.toList.getLast? = some c := by
  have hne : s.toList ≠ [] := fun hnil => h (String.toList_eq_nil_iff.mp hnil)
  exact ⟨_, List.getLast?_eq_some_getLast hne⟩

theorem displayName_eq {param : String} (hparam : param ≠ "") (body : Term) (names : List String) :
    displayName param body names = .ok (shownName param body names) := by
  obtain ⟨c, hc⟩ := exists_getLast?_of_ne_empty hparam
  simp only [displayName, shownName, hc]

theorem shownName_notMem {param : String} (hparam : param ≠ "") (body : Term)
    (names : List String) : shownName param body names ∉ referenced body names := by
  obtain ⟨c, hc⟩ := exists_getLast?_of_ne_empty hparam
  simp only [shownName, hc]
  exact freshen_notMem _ _ _

theorem isWord_push {s : String} {c : Char} (hs : Token.isWord s = true)
    (hc : Token.isLetter c = true) : Token.isWord (s.push c) = true := by
  rw [Token.isWord_iff] at hs ⊢
  refine ⟨by simp, ?_⟩
  intro d hd
  rw [String.toList_push, List.mem_append, List.mem_singleton] at hd
  rcases hd with hd | rfl
  · exact hs.2 d hd
  · exact hc

theorem isWord_freshen {taken : List String} {c : Char} (hc : Token.isLetter c = true)
    {name : String} (hname : Token.isWord name = true) :
    Token.isWord (freshen taken c name) = true := by
  fun_induction freshen taken c name with
  | case1 name hmem ih => exact ih (isWord_push hname hc)
  | case2 name hmem => exact hname

theorem isWord_shownName {param : String} (hparam : Token.isWord param = true) (body : Term)
    (names : List String) : Token.isWord (shownName param body names) = true := by
  obtain ⟨hne, hletters⟩ := Token.isWord_iff.mp hparam
  obtain ⟨c, hc⟩ := exists_getLast?_of_ne_empty hne
  simp only [shownName, hc]
  exact isWord_freshen (hletters c (List.mem_of_getLast? hc)) hparam

/-! ### Names that are not hidden -/

/-- The names can be shown and read back: all are words, and each free variable is shown under the
innermost binder of its name. -/
structure Showable (t : Term) (names : List String) : Prop where
  params : ∀ param ∈ t.params, Token.isWord param = true
  words : ∀ name ∈ names, Token.isWord name = true
  free : ∀ index ∈ t.freeIndices 0, ∃ name, names[index]? = some name ∧ name ∉ names.take index

theorem Showable.lhs {lhs rhs : Term} {names : List String} (h : Showable (.app lhs rhs) names) :
    Showable lhs names :=
  ⟨fun param hparam => h.params param (List.mem_append_left _ hparam), h.words,
    fun index hindex => h.free index (List.mem_append_left _ hindex)⟩

theorem Showable.rhs {lhs rhs : Term} {names : List String} (h : Showable (.app lhs rhs) names) :
    Showable rhs names :=
  ⟨fun param hparam => h.params param (List.mem_append_right _ hparam), h.words,
    fun index hindex => h.free index (List.mem_append_right _ hindex)⟩

theorem Showable.param {param : String} {body : Term} {names : List String}
    (h : Showable (.lam param body) names) : Token.isWord param = true :=
  h.params param List.mem_cons_self

theorem mem_referenced {body : Term} {names : List String} {name : String} :
    name ∈ referenced body names ↔
      ∃ index, index + 1 ∈ body.freeIndices 0 ∧ names[index]? = some name := by
  rw [referenced, List.mem_filterMap]
  constructor
  · rintro ⟨index, hindex, hname⟩
    cases index with
    | zero => cases hname
    | succ index => exact ⟨index, hindex, hname⟩
  · rintro ⟨index, hindex, hname⟩
    exact ⟨index + 1, hindex, hname⟩

/-- The shown name of a binder hides none of the names that its body refers to. -/
theorem Showable.body {param : String} {body : Term} {names : List String}
    (h : Showable (.lam param body) names) :
    Showable body (shownName param body names :: names) := by
  have hne := (Token.isWord_iff.mp h.param).1
  refine ⟨fun other hother => h.params other (List.mem_cons_of_mem _ hother), ?_, ?_⟩
  · intro name hname
    rcases List.mem_cons.mp hname with rfl | hname
    · exact isWord_shownName h.param body names
    · exact h.words name hname
  · intro index hindex
    cases index with
    | zero => exact ⟨_, rfl, by simp⟩
    | succ index =>
      obtain ⟨name, hname, hfresh⟩ := h.free index (mem_freeIndices_lam.mpr hindex)
      refine ⟨name, hname, ?_⟩
      rw [List.take_succ_cons, List.mem_cons, not_or]
      refine ⟨?_, hfresh⟩
      intro heq
      exact shownName_notMem hne body names (heq ▸ mem_referenced.mpr ⟨index, hindex, hname⟩)

theorem Showable.of_isClosed {t : Term} (hparams : ∀ param ∈ t.params, Token.isWord param = true)
    (hclosed : t.isClosed = true) : Showable t [] := by
  refine ⟨hparams, by simp, ?_⟩
  rw [isClosed, List.isEmpty_iff] at hclosed
  simp [hclosed]

/-! ### The tree -/

/-- The tree that a term is shown as under binders that are shown as `names`. -/
def shown : Term → (names : List String) → Named
  | .var index, names => .var (names.getD index "")
  | .lam param body, names =>
    .lam (shownName param body names) (shown body (shownName param body names :: names))
  | .app lhs rhs, names => .app (shown lhs names) (shown rhs names)

theorem idxOf?_eq_of_notMem_take {names : List String} {index : Nat} {name : String}
    (hname : names[index]? = some name) (hfresh : name ∉ names.take index) :
    names.idxOf? name = some index := by
  obtain ⟨hlt, hget⟩ := List.getElem?_eq_some_iff.mp hname
  refine List.idxOf?_eq_some_iff.mpr ⟨hlt, hget, ?_⟩
  intro j hj heq
  apply hfresh
  exact List.mem_take_iff_getElem.mpr ⟨j, by omega, heq⟩

/-! ### The term of the tree -/

/-- The term with its binders under the names they are shown under. -/
def relabelled : Term → (names : List String) → Term
  | .var index, _ => .var index
  | .lam param body, names =>
    .lam (shownName param body names) (relabelled body (shownName param body names :: names))
  | .app lhs rhs, names => .app (relabelled lhs names) (relabelled rhs names)

@[simp] theorem unnamed_relabelled (t : Term) (names : List String) :
    (t.relabelled names).unnamed = t.unnamed := by
  induction t generalizing names with
  | var index => rfl
  | lam param body ih => rw [relabelled, unnamed, unnamed, ih]
  | app lhs rhs ihl ihr => rw [relabelled, unnamed, unnamed, ihl, ihr]

theorem relabelled_alphaEq (t : Term) (names : List String) : (t.relabelled names).AlphaEq t :=
  unnamed_relabelled t names

@[simp] theorem freeIndices_relabelled (t : Term) (names : List String) (depth : Int) :
    (t.relabelled names).freeIndices depth = t.freeIndices depth := by
  rw [← freeIndices_unnamed, unnamed_relabelled, freeIndices_unnamed]

@[simp] theorem depth_relabelled (t : Term) (names : List String) :
    (t.relabelled names).depth = t.depth := by
  rw [← depth_unnamed, unnamed_relabelled, depth_unnamed]

@[simp] theorem isValue_relabelled (t : Term) (names : List String) :
    (t.relabelled names).isValue = t.isValue := by
  cases t <;> rfl

@[simp] theorem isApplication_relabelled (t : Term) (names : List String) :
    (t.relabelled names).isApplication = t.isApplication := by
  cases t <;> rfl

@[simp] theorem referenced_relabelled (body : Term) (shown names : List String) :
    referenced (body.relabelled shown) names = referenced body names := by
  rw [referenced, freeIndices_relabelled, referenced]

/-- Resolving the names of the shown tree gives the term back, with its binders under their shown
names. -/
theorem elaborate_shown_eq (definitions : Definitions) {t : Term} {names : List String}
    (h : Showable t names) :
    (t.shown names).elaborate definitions names = some (t.relabelled names) := by
  induction t generalizing names with
  | var index =>
    obtain ⟨name, hname, hfresh⟩ := h.free index (by simp [freeIndices])
    have hshown : names.getD index "" = name := by
      rw [List.getD_eq_getElem?_getD, hname, Option.getD_some]
    rw [shown, hshown, Named.elaborate, idxOf?_eq_of_notMem_take hname hfresh, relabelled]
  | lam param body ih =>
    rw [shown, Named.elaborate, ih h.body, Option.map_some, relabelled]
  | app lhs rhs ihl ihr =>
    simp [shown, Named.elaborate, ihl h.lhs, ihr h.rhs, relabelled]

theorem elaborate_shown (definitions : Definitions) {t : Term} {names : List String}
    (h : Showable t names) :
    ∃ u, (t.shown names).elaborate definitions names = some u ∧ u.AlphaEq t :=
  ⟨t.relabelled names, elaborate_shown_eq definitions h, relabelled_alphaEq t names⟩

theorem shownName_of_notMem {name : String} {body : Term} {names : List String}
    (h : name ∉ referenced body names) : shownName name body names = name := by
  rw [shownName]
  split
  · rw [freshen, if_neg h]
  · rfl

/-- A binder that is shown under its own name needs no further renaming, so the text is the same. -/
theorem bareText_relabelled {t : Term} {names : List String} (h : Showable t names) :
    (t.relabelled names).bareText names = t.bareText names := by
  induction t generalizing names with
  | var index => rfl
  | lam param body ih =>
    have hne := (Token.isWord_iff.mp h.param).1
    have hshown := (Token.isWord_iff.mp (isWord_shownName h.param body names)).1
    have hstays : shownName (shownName param body names)
        (body.relabelled (shownName param body names :: names)) names
          = shownName param body names := by
      apply shownName_of_notMem
      rw [referenced_relabelled]
      exact shownName_notMem hne body names
    rw [relabelled, bareText, bareText, displayName_eq hne, displayName_eq hshown, hstays]
    simp only [bind, Except.bind, ih h.body]
  | app lhs rhs ihl ihr =>
    rw [relabelled, bareText, bareText, ihl h.lhs, ihr h.rhs, isValue_relabelled,
      isValue_relabelled, isApplication_relabelled]

theorem render_relabelled {t : Term} {names : List String} (h : Showable t names) :
    (t.relabelled names).render names = t.render names := by
  rw [render, render, bareText_relabelled h, isValue_relabelled]

/-! ### What has no text -/

theorem exists_defect_of_displayName {param : String} {body : Term} {names : List String}
    {fault : Fault} (h : displayName param body names = .error fault) :
    ∃ cause, fault = .defect cause := by
  unfold displayName at h
  split at h
  · cases h
  · dsimp only at h
    split at h
    · cases h
      exact ⟨_, rfl⟩
    · cases h

theorem exists_defect_of_variableText {names : List String} {index : Nat} {fault : Fault}
    (h : variableText names index = .error fault) : ∃ cause, fault = .defect cause := by
  unfold variableText at h
  split at h
  · cases h
  · split at h
    · cases h
    · cases h
      exact ⟨_, rfl⟩

theorem exists_defect_of_bareText {t : Term} {names : List String} {fault : Fault}
    (h : t.bareText names = .error fault) : ∃ cause, fault = .defect cause := by
  induction t generalizing names with
  | var index => exact exists_defect_of_variableText h
  | lam param body ih =>
    rw [bareText] at h
    rcases cases_of_bind_eq_error h with hshown | ⟨shown, -, h⟩
    · exact exists_defect_of_displayName hshown
    · rcases cases_of_bind_eq_error h with htext | ⟨text, -, h⟩
      · exact ih htext
      · cases h
  | app lhs rhs ihl ihr =>
    rw [bareText] at h
    rcases cases_of_bind_eq_error h with hleft | ⟨left, -, h⟩
    · exact ihl hleft
    · rcases cases_of_bind_eq_error h with hright | ⟨right, -, h⟩
      · exact ihr hright
      · cases h

theorem exists_defect_of_render {t : Term} {names : List String} {fault : Fault}
    (h : t.render names = .error fault) : ∃ cause, fault = .defect cause := by
  rw [render] at h
  rcases cases_of_bind_eq_error h with htext | ⟨text, -, h⟩
  · exact exists_defect_of_bareText htext
  · cases h

end Term

theorem Query.renderBounded_ne_diagnostic (query : Query) (d : Diagnostic) :
    query.renderBounded ≠ .error (.diagnostic d) := by
  intro h
  rw [renderBounded] at h
  split at h
  · cases h
  · cases query with
    | term t =>
      obtain ⟨cause, hcause⟩ := Term.exists_defect_of_render h
      cases hcause
    | definition name body =>
      rw [render] at h
      rcases cases_of_bind_eq_error h with htext | ⟨text, -, h⟩
      · obtain ⟨cause, hcause⟩ := Term.exists_defect_of_render htext
        cases hcause
      · cases h

end CallByValue
