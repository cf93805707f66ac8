import CallByValue.Proofs.Printer.RoundTrip
import CallByValue.Proofs.Session.Interactive
/-!
# Towers

A tower is a name below a number of nested parentheses, with an operator `x` in front of each. Its
line is short, but the name may be defined, and then the value is a tower on top of whatever stands
below it. So what a session defines can nest deeper than any line that it could have read.
-/

namespace CallByValue

open Grammar Term

/-- The text of a tower of the given height on the name. -/
def towerText (leaf : String) : (height : Nat) → String
  | 0 => leaf
  | height + 1 => "x" ++ " " ++ parenthesized (towerText leaf height)

def towerTree (leaf : String) : (height : Nat) → Named
  | 0 => .var leaf
  | height + 1 => .app (.var "x") (towerTree leaf height)

/-- A tower on a term, inside the binder of its operators. -/
def tower (leaf : Term) : (height : Nat) → Term
  | 0 => leaf
  | height + 1 => .app (.var 0) (tower leaf height)

/-- The line that defines a name as a tower. -/
def towerLine (name leaf : String) (height : Nat) : String :=
  name ++ " = " ++ ("\\" ++ "x" ++ ". " ++ towerText leaf height)

variable {name leaf : String} {t : Term} {definitions : Definitions}

theorem towerText_writes (hleaf : Token.isWord leaf = true) (height : Nat) :
    Writes (ApplicationTakes (3 * height)) (towerText leaf height) (towerTree leaf height) := by
  induction height with
  | zero => exact (Writes.ident hleaf).mono fun _ hatom => .atom hatom
  | succ height ih =>
    have hterm : Writes (TermTakes (3 * height + 1)) (towerText leaf height)
        (towerTree leaf height) :=
      ih.mono fun _ happ => .application happ
    have hx : Token.isWord "x" = true := by decide
    have hoperator : Writes (ApplicationTakes 0) "x" (.var "x") :=
      (Writes.ident hx).mono fun _ hatom => .atom hatom
    have hframes : max 0 (3 * height + 1 + 2) = 3 * (height + 1) := by omega
    exact hframes ▸ hoperator.app hterm.parenthesized

theorem elaborate_towerTree (h : (Named.var leaf).elaborate definitions ["x"] = some t)
    (height : Nat) :
    (towerTree leaf height).elaborate definitions ["x"] = some (tower t height) := by
  induction height with
  | zero => exact h
  | succ height ih =>
    exact Named.elaborate_app_eq_some.mpr ⟨.var 0, tower t height, rfl, ih, rfl⟩

theorem parseBounded_towerLine (hname : Token.isWord name = true) (hleaf : Token.isWord leaf = true)
    (h : (Named.var leaf).elaborate definitions ["x"] = some t) {height : Nat}
    (hfits : 3 * height + 2 ≤ Parser.maxFrames) :
    parseBounded definitions (towerLine name leaf height)
      = .ok (.definition name (.lam "x" (tower t height))) := by
  have hterm : Writes (TermTakes (3 * height + 1)) (towerText leaf height)
      (towerTree leaf height) :=
    (towerText_writes hleaf height).mono fun _ happ => .application happ
  have hx : Token.isWord "x" = true := by decide
  have hread : (Named.lam "x" (towerTree leaf height)).elaborate definitions []
      = some (.lam "x" (tower t height)) :=
    Named.elaborate_lam_eq_some.mpr ⟨_, elaborate_towerTree h height, rfl⟩
  rw [towerLine, parseBounded_definition hname (hterm.lam hx) hread, if_pos hfits]

namespace Session

variable {session : Session}

theorem Orderly.definitions_after_towerLine (h : session.Orderly)
    (hname : Token.isWord name = true) (hleaf : Token.isWord leaf = true)
    (hnew : session.definitions.contains name = false)
    (hresolves : (Named.var leaf).elaborate session.definitions ["x"] = some t) {height : Nat}
    (hfits : 3 * height + 2 ≤ Parser.maxFrames)
    (hdepth : (Term.lam "x" (tower t height)).depth ≤ maxDepth) (number : Int) :
    (after (add (towerLine name leaf height) number) session).definitions
      = session.definitions.insert name (.lam "x" (tower t height)) := by
  have hresult : (session.evaluate (towerLine name leaf height)).result
      = .ok (.definition name (.lam "x" (tower t height))) := by
    rw [Session.evaluate, Reducer.run, parseBounded_towerLine hname hleaf hresolves hfits]
    exact congrArg Outcome.result (Reducer.evaluate_of_isValue _ rfl)
  have hgives := h.result (towerLine name leaf height)
  rw [hresult] at hgives
  obtain ⟨text, htext⟩ := hgives.presentable.named.exists_render
  have hanswer : session.answer (towerLine name leaf height)
      = .ok (.definition name (.lam "x" (tower t height)), name ++ " = " ++ text) := by
    refine answer_eq_ok_iff.mpr ⟨hresult, ?_⟩
    rw [Query.renderBounded, Query.body, if_neg (Nat.not_lt_of_le hdepth), Query.render,
      show (Term.lam "x" (tower t height)).render [] = .ok text from htext]
    rfl
  rw [after, add_eq_of_new hanswer (namedIn_of_gives hgives) hnew number]
  rfl

end Session

end CallByValue
