import CallByValue.Proofs.Printer.Display
import Mathlib.Data.Finset.Card
import Mathlib.Logic.Function.Iterate
import Mathlib.Order.Bounds.Defs
/-!
# How binders are renamed

The search for the name of a binder goes on until it meets a name that is not taken, and nothing in
it says when that will be. But every round makes the name longer, so the names it goes through are
all different, and only finitely many are taken: there cannot be more rounds than taken names. And
since the names come in the order of their length, the one that it stops at is the shortest that
captures nothing.
-/

namespace CallByValue

namespace Term

/-! ### The names that are tried -/

/-- One round of the search: the last character is repeated. -/
def lengthened (name : String) : String :=
  match name.toList.getLast? with
  | some c => name.push c
  | none => name

/-- The name with so many more copies of `c` at its end. -/
def stretched (name : String) (c : Char) (times : Nat) : String :=
  name ++ String.ofList (List.replicate times c)

theorem stretched_zero (name : String) (c : Char) : stretched name c 0 = name := by
  simp [stretched]

theorem stretched_push (name : String) (c : Char) (times : Nat) :
    stretched (name.push c) c times = stretched name c (times + 1) := by
  simp [stretched, ← String.toList_inj, List.replicate_succ]

theorem push_stretched (name : String) (c : Char) (times : Nat) :
    (stretched name c times).push c = stretched name c (times + 1) := by
  simp [stretched, ← String.toList_inj, List.replicate_succ']

theorem length_stretched (name : String) (c : Char) (times : Nat) :
    (stretched name c times).length = name.length + times := by
  simp [stretched]

theorem stretched_injective (name : String) (c : Char) : Function.Injective (stretched name c) := by
  intro i j h
  have hlength := congrArg String.length h
  rw [length_stretched, length_stretched] at hlength
  omega

theorem getLast?_stretched {name : String} {c : Char} (hc : name.toList.getLast? = some c)
    (times : Nat) : (stretched name c times).toList.getLast? = some c := by
  cases times with
  | zero => rwa [stretched_zero]
  | succ times => simp [← push_stretched]

/-- The rounds of the search add copies of one character, the last one of the name it began with. -/
theorem iterate_lengthened {name : String} {c : Char} (hc : name.toList.getLast? = some c)
    (rounds : Nat) : lengthened^[rounds] name = stretched name c rounds := by
  induction rounds with
  | zero => exact (stretched_zero name c).symm
  | succ rounds ih =>
    rw [Function.iterate_succ_apply', ih, lengthened, getLast?_stretched hc]
    exact push_stretched name c rounds

/-! ### The name that is found -/

/-- The search goes through taken names only, and stops at the first that is not. -/
theorem exists_freshen_eq_stretched (taken : List String) (c : Char) (name : String) :
    ∃ times, freshen taken c name = stretched name c times ∧
      ∀ fewer < times, stretched name c fewer ∈ taken := by
  fun_induction freshen taken c name with
  | case1 name hmem ih =>
    obtain ⟨times, heq, hfewer⟩ := ih
    refine ⟨times + 1, by rw [heq, stretched_push], ?_⟩
    intro fewer hlt
    cases fewer with
    | zero => rwa [stretched_zero]
    | succ fewer =>
      rw [← stretched_push]
      exact hfewer fewer (by omega)
  | case2 name hmem => exact ⟨0, (stretched_zero name c).symm, by simp⟩

theorem le_card_of_stretched_mem {taken : List String} {c : Char} {name : String} {times : Nat}
    (h : ∀ fewer < times, stretched name c fewer ∈ taken) : times ≤ taken.toFinset.card := by
  have hmaps : Set.MapsTo (stretched name c) (Finset.range times) taken.toFinset := by
    intro fewer hlt
    rw [Finset.mem_coe, Finset.mem_range] at hlt
    rw [Finset.mem_coe, List.mem_toFinset]
    exact h fewer hlt
  have hcard := Finset.card_le_card_of_injOn (stretched name c) hmaps
    (stretched_injective name c).injOn
  rwa [Finset.card_range] at hcard

/-- The name is none of those that the body refers to. Variable zero of the body belongs to the
binder itself, so the variable `index` after it has the name at `index - 1`. -/
def Avoids (body : Term) (names : List String) (name : String) : Prop :=
  ∀ index ∈ body.freeIndices 0, 0 < index → index ≤ names.length → names[index - 1]? ≠ some name

theorem notMem_referenced_iff {body : Term} {names : List String} {name : String} :
    name ∉ referenced body names ↔ Avoids body names name := by
  rw [mem_referenced]
  constructor
  · intro h index hindex hpos _ hname
    obtain ⟨further, rfl⟩ := Nat.exists_eq_succ_of_ne_zero (Nat.ne_of_gt hpos)
    exact h ⟨further, hindex, hname⟩
  · rintro h ⟨index, hindex, hname⟩
    obtain ⟨hlt, -⟩ := List.getElem?_eq_some_iff.mp hname
    exact h (index + 1) hindex (Nat.succ_pos index) hlt hname

/-- **A binder is renamed no more than it has to be.** The search for its name ends, after at most as
many rounds as there are different names that the body refers to. What it gives is the name of the
binder with its last character repeated, as few times as it takes for the name to be none of them. -/
theorem displayName_least {param : String} (hparam : param ≠ "") (body : Term)
    (names : List String) :
    ∃ c times, param.toList.getLast? = some c ∧
      (∀ rounds, lengthened^[rounds] param = stretched param c rounds) ∧
      displayName param body names = .ok (stretched param c times) ∧
      IsLeast {rounds | Avoids body names (stretched param c rounds)} times ∧
      times ≤ (referenced body names).toFinset.card := by
  obtain ⟨c, hc⟩ := exists_getLast?_of_ne_empty hparam
  obtain ⟨times, hfresh, hfewer⟩ := exists_freshen_eq_stretched (referenced body names) c param
  have hstop : stretched param c times ∉ referenced body names := by
    rw [← hfresh]
    exact freshen_notMem _ _ _
  refine ⟨c, times, hc, iterate_lengthened hc, ?_, ⟨notMem_referenced_iff.mp hstop, ?_⟩,
    le_card_of_stretched_mem hfewer⟩
  · simp only [displayName, hc, hfresh]
  · intro rounds havoids
    by_contra hless
    exact notMem_referenced_iff.mpr havoids (hfewer rounds (by omega))

/-- Two names are taken, one after the other. What is found is a name further out as well, but one that
the body does not refer to. -/
theorem displayName_least_twice :
    let body : Term := .app (.var 2) (.lam "z" (.app (.var 2) (.app (.var 0) (.var 9))))
    let names := ["éx", "éxx", "éxxx", "éxxxx"]
    "éx" ≠ "" ∧ displayName "éx" body names = .ok "éxxx" ∧
      IsLeast {rounds | Avoids body names (stretched "éx" 'x' rounds)} 2 := by
  intro body names
  have hparam : "éx" ≠ "" := by decide
  obtain ⟨c, times, hc, -, hshown, hleast, -⟩ := displayName_least hparam body names
  obtain rfl : 'x' = c := by simpa using hc
  have hevaluated : displayName "éx" body names = .ok (stretched "éx" 'x' 2) := by
    simp [displayName, referenced, freeIndices, freshen, stretched, body, names]
  have htimes : stretched "éx" 'x' 2 = stretched "éx" 'x' times :=
    Except.ok.inj (hevaluated.symm.trans hshown)
  rw [← stretched_injective _ _ htimes] at hleast
  exact ⟨hparam, hevaluated, hleast⟩

end Term

end CallByValue
