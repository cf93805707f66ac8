import CallByValue.Parser
import CallByValue.Term.Printer
import CallByValue.Term.Substitution
/-!
# Evaluation

An application is evaluated by evaluating its operator, then its operand, and then contracting it,
as long as what comes out is an application again. If the operator does not come out as an
abstraction the application is stuck on a free variable, and that is its result.

Several things can cut an evaluation short. A limit on the number of contractions is the user's own;
it is checked after a contraction is counted and before it is made. A veto forbids contractions
altogether. Evaluations may nest only so deep, the terms that a contraction takes and gives may be
only so deep, and a run without a limit ends somewhere too, after more contractions than any machine
will make. A term that is never contracted may be of any depth.

The fuel handed to the evaluator bounds the length of a chain of nested evaluations and
contractions, so a limited run never uses it up.

Whoever watches an evaluation is shown every contractum as it is made and may note something about
it. If the watcher fails, the evaluation ends there.
-/

namespace CallByValue

/-- A watcher says what to note about a contractum, if anything. -/
abbrev Watcher (β : Type) := Term → Except Fault (Option β)

namespace Watcher

def silent : Watcher String :=
  fun _ => .ok none

def texts : Watcher String :=
  fun t => (t.render []).map some

def terms : Watcher Term :=
  fun t => .ok (some t)

end Watcher

structure Reducer (β : Type) where
  /-- How many contractions are allowed, if there is a limit. -/
  limit : Option Int
  /-- What ends the evaluation at its first contraction, if anything does. -/
  veto : Option Fault := none
  watch : Watcher β

/-- How far an evaluation has come. -/
structure Progress (β : Type) where
  steps : Nat
  /-- What the watcher noted, the latest first. -/
  notes : List β

structure Outcome (α β : Type) where
  result : Except Fault α
  steps : Nat
  /-- What the watcher noted, in order. -/
  notes : List β

namespace Reducer

/-- Notes the text of every contractum if `trace` says so, and nothing otherwise. -/
def tracing (limit : Option Int) (veto : Option Fault) (trace : Bool) : Reducer String :=
  { limit, veto, watch := if trace then .texts else .silent }

variable {β : Type} (reducer : Reducer β)

/-- What speaks against one more contraction when `steps` of them are counted, itself included. -/
def objection? (steps : Nat) : Option Fault :=
  reducer.veto.or <|
    match reducer.limit with
    | some limit => if limit < steps then some (.nonTermination limit) else none
    | none => none

/-- The contractum of a body with a value, unless one of the three is too deep. -/
def contractum (value body : Term) : Except Fault Term := do
  if Term.maxDepth < value.depth || Term.maxDepth < body.depth then throw .depthExceeded
  let t ← Term.contract value body
  if Term.maxDepth < t.depth then throw .depthExceeded
  return t

/-- Counts a contraction and makes it. -/
def contract (value body : Term) : EStateM Fault (Progress β) Term := do
  modify fun progress => { progress with steps := progress.steps + 1 }
  match reducer.objection? (← get).steps with
  | some fault => throw fault
  | none => pure ()
  match contractum value body with
  | .error fault => throw fault
  | .ok t =>
    match reducer.watch t with
    | .error fault => throw fault
    | .ok note =>
      modify fun progress => { progress with notes := note.toList ++ progress.notes }
      return t

/-- Evaluates a term, with operands nested at most `room` deep. -/
def reduceWithin : (fuel room : Nat) → Term → EStateM Fault (Progress β) Term
  | _, _, .var index => return .var index
  | _, _, .lam param body => return .lam param body
  | 0, _, .app _ _ => throw .outOfFuel
  | _ + 1, 0, .app _ _ => throw .depthExceeded
  | fuel + 1, room + 1, .app lhs rhs => do
    let operator ← reduceWithin fuel room lhs
    let operand ← reduceWithin fuel room rhs
    match operator with
    | .lam _ body =>
      let t ← reducer.contract operand body
      reduceWithin fuel (room + 1) t
    | _ => return .app operator operand

/-- Enough fuel for every run that stays within the limit. -/
def fuel : Nat :=
  match reducer.limit with
  | some limit => Term.maxDepth + limit.toNat + 2
  | none => 0x4000000000000000

/-- Evaluates a term after others: the count starts over, and the notes go on. -/
def reduceNext (t : Term) : EStateM Fault (Progress β) Term := do
  modify fun progress => { progress with steps := 0 }
  reducer.reduceWithin reducer.fuel Term.maxDepth t

def reduce (t : Term) : Outcome Term β :=
  match reducer.reduceNext t ⟨0, []⟩ with
  | .ok value progress => ⟨.ok value, progress.steps, progress.notes.reverse⟩
  | .error fault progress => ⟨.error fault, progress.steps, progress.notes.reverse⟩

def evaluate (query : Query) : Outcome Query β :=
  let outcome := reducer.reduce query.body
  { outcome with result := outcome.result.map query.withBody }

def run (definitions : Definitions) (expr : String) : Outcome Query β :=
  match parseBounded definitions expr with
  | .error fault => ⟨.error fault, 0, []⟩
  | .ok query => reducer.evaluate query

end Reducer

end CallByValue
