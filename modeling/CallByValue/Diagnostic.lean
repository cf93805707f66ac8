import CallByValue.Message
/-!
# Diagnostics

A diagnostic is a message about an expression that the user wrote: what is wrong, and which part of
the expression is to blame. The part is the span from `start` to `stop` in code points.
-/

namespace CallByValue

inductive DiagnosticKind where
  | general
  | unrecognized
  | unexpected
  | unbound
  | nonTermination
deriving DecidableEq

structure Diagnostic where
  kind : DiagnosticKind
  message : Message
  expr : String
  start : Int
  stop : Int
  /-- Whether a report shows the expression. -/
  shown : Bool
  /-- Whether the program is to blame and not the user. -/
  internal : Bool
deriving DecidableEq

namespace Diagnostic

/-- The end of a span, where -1 asks for the end of the expression. -/
def stopIn (expr : String) (stop : Int) : Int :=
  if stop = -1 then expr.length else stop

def general (text : String) : Diagnostic :=
  { kind := .general, message := .ofPieces [.text text], expr := "", start := 0, stop := 0,
    shown := true, internal := false }

def unrecognized (expr : String) (c : Char) (pos : Nat) : Diagnostic :=
  { kind := .unrecognized
    message := .ofPieces [.text "'", .snippet expr, .text "' contains unrecognized character '",
      .snippet (String.singleton c), .text "'"]
    expr, start := pos, stop := pos + 1, shown := true, internal := false }

/-- A token at `pos`, `width` characters long, where something else was expected. -/
def unexpected (expr expected found : String) (pos width : Nat) : Diagnostic :=
  { kind := .unexpected
    message := .ofPieces [.text "'", .snippet expr, .text "' expected ", .snippet expected,
      .text ", found ", .snippet found]
    expr, start := pos, stop := pos + width, shown := true, internal := false }

/-- A name at `pos` that is neither bound by an enclosing binder nor defined. -/
def unbound (expr name : String) (pos : Int) : Diagnostic :=
  { kind := .unbound
    message := .ofPieces [.text "'", .snippet expr, .text "' contains unbound identifier '",
      .snippet name, .text "'"]
    expr, start := pos, stop := stopIn expr (pos + name.length), shown := true, internal := false }

/-- No expression where one was asked for. A pair of brackets stands in its place. -/
def noExpression : Diagnostic :=
  { unexpected "" "term" "end of input" 0 1 with
    message := .ofPieces [.text "'", .snippet "[]", .text "' expected ", .snippet "term",
      .text ", found ", .snippet "end of input"] }

/-- Evaluation went beyond the number of contractions it was allowed, which is written `limit`. -/
def nonTermination (limit : String) : Diagnostic :=
  { kind := .nonTermination
    message := .ofPieces [.text "no value reached after ", .snippet limit, .text " β-reductions"]
    expr := limit, start := 0, stop := limit.length, shown := false, internal := false }

def unreadable (path : String) : Diagnostic :=
  { kind := .general
    message := .ofPieces [.text "'", .snippet path, .text "' could not be opened"]
    expr := path, start := 0, stop := path.length, shown := false, internal := false }

/-- A definition of a name that has one already; `start` is where the name stands. -/
def overwrites (expr name : String) (start : Int) : Diagnostic :=
  { kind := .general
    message := .ofPieces [.text "'", .snippet expr, .text "' overwrites previous definition of '",
      .snippet name, .text "'"]
    expr, start, stop := start + name.length, shown := true, internal := false }

def isShown (d : Diagnostic) : Bool :=
  !d.internal && !d.expr.isEmpty && d.shown

end Diagnostic

end CallByValue
