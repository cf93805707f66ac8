import CallByValue.Fault
import CallByValue.Term.Basic
/-!
# Writing terms

An abstraction is written in parentheses, which are dropped when it is the body of another one, and
an application in argument position is parenthesised, so that application associates to the left.
Binders are shown under the names they came with, unless such a name would capture a variable bound
further out: then its last letter is repeated until it does not. A variable that the enclosing
binders do not bind is written as a number, counted from the root.
-/

namespace CallByValue

namespace Term

/-- Fewer of the names that hold `name` are longer than it than are at least as long. -/
theorem countP_longer_lt {names : List String} {name : String} (hmem : name ∈ names) :
    names.countP (fun other => name.length + 1 ≤ other.length)
      < names.countP fun other => name.length ≤ other.length := by
  induction names with
  | nil => simp at hmem
  | cons other rest ih =>
    have hle : rest.countP (fun other => decide (name.length + 1 ≤ other.length))
        ≤ rest.countP fun other => decide (name.length ≤ other.length) :=
      List.countP_mono_left fun other _ h => by
        simp only [decide_eq_true_eq] at h ⊢
        omega
    rw [List.countP_cons, List.countP_cons]
    rcases List.mem_cons.mp hmem with rfl | hrest
    · simp only [decide_eq_true_eq]
      split <;> split <;> omega
    · have hlt := ih hrest
      simp only [decide_eq_true_eq]
      split <;> split <;> omega

/-- Repeats the letter `c` at the end of `name` until the name is not taken. Each repetition makes
the name longer, so it ends after at most as many steps as there are taken names. -/
def freshen (taken : List String) (c : Char) (name : String) : String :=
  if name ∈ taken then freshen taken c (name.push c) else name
termination_by taken.countP fun other => name.length ≤ other.length
decreasing_by
  rename_i hmem
  simpa using countP_longer_lt hmem

theorem freshen_notMem (taken : List String) (c : Char) (name : String) :
    freshen taken c name ∉ taken := by
  fun_induction freshen taken c name with
  | case1 name hmem ih => exact ih
  | case2 name hmem => exact hmem

/-- The names of the enclosing binders that the body of an abstraction refers to. In the body,
variable zero is the abstraction's own and variable `i + 1` is the one that `names` holds at `i`. -/
def referenced (body : Term) (names : List String) : List String :=
  (body.freeIndices 0).filterMap fun
    | 0 => none
    | index + 1 => names[index]?

/-- The name to show for a binder. A binder without a name cannot be renamed. -/
def displayName (param : String) (body : Term) (names : List String) : Except Fault String :=
  let taken := referenced body names
  match param.toList.getLast? with
  | some c => .ok (freshen taken c param)
  | none => if param ∈ taken then .error (.defect .emptyBinder) else .ok param

def parenthesized (text : String) : String :=
  "(" ++ text ++ ")"

def variableText (names : List String) (index : Nat) : Except Fault String :=
  match names[index]? with
  | some name => .ok name
  | none =>
    match Text.decimal? (index - names.length : Nat) with
    | some digits => .ok ("#" ++ digits)
    | none => .error (.defect .tooManyDigits)

/-- The text of a term without the parentheses of an abstraction at its root. -/
def bareText : Term → (names : List String) → Except Fault String
  | .var index, names => variableText names index
  | .lam param body, names => do
    let param ← displayName param body names
    let text ← bareText body (param :: names)
    return "\\" ++ param ++ ". " ++ text
  | .app lhs rhs, names => do
    let left ← bareText lhs names
    let right ← bareText rhs names
    return (if lhs.isValue then parenthesized left else left) ++ " " ++
      (if rhs.isValue || rhs.isApplication then parenthesized right else right)

/-- The text of a term under binders that are shown as `names`, the innermost first. -/
def render (t : Term) (names : List String) : Except Fault String := do
  let text ← bareText t names
  return if t.isValue then parenthesized text else text

end Term

namespace Query

def render : Query → Except Fault String
  | .term t => t.render []
  | .definition name body => do
    let text ← body.render []
    return name ++ " = " ++ text

/-- The text of a query, unless its term is too deep to be written. -/
def renderBounded (query : Query) : Except Fault String :=
  if Term.maxDepth < query.body.depth then .error .depthExceeded else query.render

end Query

end CallByValue
