import CallByValue.Term.Basic
/-!
# Free variables

The variables of a term that are free from some depth on, seen from that depth and from the root. A
term is closed from a depth on if it has none of them, and this can be read off the term variable by
variable.
-/

namespace CallByValue

namespace Term

/-- Counting from deeper down makes the same variables smaller. -/
theorem mem_freeIndices_add (t : Term) (index depth more : Nat) :
    index ∈ t.freeIndices (depth + more : Nat) ↔ index + more ∈ t.freeIndices depth := by
  induction t generalizing depth with
  | var i =>
    simp only [freeIndices]
    split <;> split <;> simp <;> omega
  | lam param body ih =>
    have hbody := ih (depth + 1)
    rw [Nat.add_right_comm] at hbody
    simpa only [freeIndices, Int.natCast_add, Int.natCast_one] using hbody
  | app lhs rhs ihl ihr =>
    simp only [freeIndices, List.mem_append, ihl, ihr]

theorem mem_freeIndices_lam {param : String} {body : Term} {index : Nat} :
    index ∈ (lam param body).freeIndices 0 ↔ index + 1 ∈ body.freeIndices 0 :=
  mem_freeIndices_add body index 0 1

/-- Every variable is bound inside the term or by one of `depth` binders around it. -/
def ClosedFrom : (depth : Nat) → Term → Prop
  | depth, .var index => index < depth
  | depth, .lam _ body => ClosedFrom (depth + 1) body
  | depth, .app lhs rhs => ClosedFrom depth lhs ∧ ClosedFrom depth rhs

theorem freeIndices_eq_nil_iff (t : Term) (depth : Nat) :
    t.freeIndices depth = [] ↔ ClosedFrom depth t := by
  induction t generalizing depth with
  | var index =>
    simp only [freeIndices, ClosedFrom]
    split <;> simp <;> omega
  | lam param body ih =>
    have hbody := ih (depth + 1)
    rw [Int.natCast_add, Int.natCast_one] at hbody
    rw [freeIndices, ClosedFrom, hbody]
  | app lhs rhs ihl ihr => simp [freeIndices, ClosedFrom, ihl, ihr]

theorem isClosed_iff {t : Term} : t.isClosed = true ↔ ClosedFrom 0 t := by
  rw [isClosed, List.isEmpty_iff]
  exact freeIndices_eq_nil_iff t 0

end Term

end CallByValue
