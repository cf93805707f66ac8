import CallByValue.Proofs.Parser.Derivation
import Mathlib.Data.List.Infix
/-!
# Viable prefixes

A row of token kinds is viable if some query, with the end of input behind it, starts with it. That
is said with the grammar alone, so it gives no way to find out. A reader that looks at one token after
the other can: it needs to know how many parentheses are open, and which of a few things may come
next. A row is viable exactly if the reader gets through it.

The reader follows every derivation. Conversely, what it has read up to some place can be completed
there, and to put a token in front of a completion gives a completion of the place before.
-/

namespace CallByValue

namespace Grammar

/-- Some query, with the end of input behind it, starts with tokens of these kinds. -/
def Viable (kinds : List TokenKind) : Prop :=
  ∃ lexemes named, IsQuery lexemes named ∧ kinds <+: lexemes.map Lexeme.kind ++ [.eof]

theorem Viable.of_isPrefix {part kinds : List TokenKind} (h : Viable kinds) (hpart : part <+: kinds) :
    Viable part := by
  obtain ⟨lexemes, named, hquery, hstarts⟩ := h
  exact ⟨lexemes, named, hquery, hpart.trans hstarts⟩

/-! ### The reader -/

/-- What may come next inside a term: a term, the name of a binder, its dot, or more of a row of
atoms. Nothing comes after the end of input. -/
inductive Stage where
  | term
  | binder
  | dot
  | row
  | finished
deriving DecidableEq

/-- An atom may come next: a term starts, or a row of atoms goes on. -/
inductive Stage.TakesAtom : Stage → Prop where
  | term : TakesAtom .term
  | row : TakesAtom .row

/-- Where a reader stands: what may come next, and how many parentheses are open. -/
structure Place where
  stage : Stage
  depth : Nat
deriving DecidableEq

namespace Place

def start : Place :=
  ⟨.term, 0⟩

/-- Where a token of the given kind leads, if it may come next. -/
def next : Place → TokenKind → Option Place
  | ⟨.term, depth⟩, .lambda => some ⟨.binder, depth⟩
  | ⟨.binder, depth⟩, .ident => some ⟨.dot, depth⟩
  | ⟨.dot, depth⟩, .dot => some ⟨.term, depth⟩
  | ⟨.term, depth⟩, .lparen => some ⟨.term, depth + 1⟩
  | ⟨.row, depth⟩, .lparen => some ⟨.term, depth + 1⟩
  | ⟨.term, depth⟩, .ident => some ⟨.row, depth⟩
  | ⟨.row, depth⟩, .ident => some ⟨.row, depth⟩
  | ⟨.row, depth + 1⟩, .rparen => some ⟨.row, depth⟩
  | ⟨.row, 0⟩, .eof => some ⟨.finished, 0⟩
  | _, _ => none

/-- Where a row of tokens leads. -/
def read : Place → List TokenKind → Option Place
  | place, [] => some place
  | place, kind :: kinds => (place.next kind).bind (read · kinds)

theorem read_append (place : Place) (front back : List TokenKind) :
    place.read (front ++ back) = (place.read front).bind (read · back) := by
  induction front generalizing place with
  | nil => rfl
  | cons kind front ih =>
    rw [List.cons_append, read, read, Option.bind_assoc]
    exact congrArg _ (funext ih)

theorem read_concat (place : Place) (kinds : List TokenKind) (kind : TokenKind) :
    place.read (kinds ++ [kind]) = (place.read kinds).bind (next · kind) := by
  rw [read_append]
  congr 1
  funext place'
  cases hnext : place'.next kind <;> simp [read, hnext]

theorem isSome_read_of_isPrefix {place : Place} {part kinds : List TokenKind} (h : part <+: kinds)
    (hread : (place.read kinds).isSome = true) : (place.read part).isSome = true := by
  obtain ⟨rest, rfl⟩ := h
  rw [read_append] at hread
  exact Option.isSome_of_isSome_bind hread

theorem next_binder_iff {place place' : Place} {kind : TokenKind}
    (h : place.next kind = some place') : place'.stage = .binder ↔ kind = .lambda := by
  obtain ⟨stage, depth⟩ := place
  cases stage <;> cases kind <;> cases depth <;> cases h <;> simp

theorem read_binder_iff {kinds : List TokenKind} {place : Place}
    (h : start.read kinds = some place) :
    place.stage = .binder ↔ kinds.getLast? = some .lambda := by
  rcases List.eq_nil_or_concat kinds with rfl | ⟨front, kind, rfl⟩
  · cases h
    simp [start]
  · rw [List.concat_eq_append, read_concat] at h
    obtain ⟨place', -, hnext⟩ := Option.bind_eq_some_iff.mp h
    rw [next_binder_iff hnext, List.concat_eq_append, List.getLast?_concat, Option.some.injEq]

end Place

theorem Stage.TakesAtom.ne_binder {stage : Stage} (h : stage.TakesAtom) : stage ≠ .binder := by
  cases h <;> nofun

theorem Stage.TakesAtom.next_ident {stage : Stage} (h : stage.TakesAtom) (depth : Nat) :
    Place.next ⟨stage, depth⟩ .ident = some ⟨.row, depth⟩ := by
  cases h <;> rfl

theorem Stage.TakesAtom.next_lparen {stage : Stage} (h : stage.TakesAtom) (depth : Nat) :
    Place.next ⟨stage, depth⟩ .lparen = some ⟨.term, depth + 1⟩ := by
  cases h <;> rfl

/-! ### Every derivation is read -/

mutual

theorem IsTerm.read {lexemes : List Lexeme} {tree : Named} (depth : Nat) :
    IsTerm lexemes tree → Place.read ⟨.term, depth⟩ (lexemes.map Lexeme.kind) = some ⟨.row, depth⟩
  | .lam h => h.read depth
  | .application h => h.read depth

theorem IsApplication.read {lexemes : List Lexeme} {tree : Named} (depth : Nat) :
    IsApplication lexemes tree →
      Place.read ⟨.term, depth⟩ (lexemes.map Lexeme.kind) = some ⟨.row, depth⟩
  | .atom h => (h.read depth).1
  | .app hl hr => by
    rw [List.map_append, Place.read_append, hl.read depth, Option.bind_some, (hr.read depth).2]

theorem IsAtom.read {lexemes : List Lexeme} {tree : Named} (depth : Nat) : IsAtom lexemes tree →
    Place.read ⟨.term, depth⟩ (lexemes.map Lexeme.kind) = some ⟨.row, depth⟩ ∧
      Place.read ⟨.row, depth⟩ (lexemes.map Lexeme.kind) = some ⟨.row, depth⟩
  | .ident => ⟨rfl, rfl⟩
  | @IsAtom.paren inner _ h => by
    have hinner : Place.read ⟨.term, depth + 1⟩ ((inner ++ [Lexeme.rparen]).map Lexeme.kind)
        = some ⟨.row, depth⟩ := by
      rw [List.map_append, Place.read_append, h.read (depth + 1), Option.bind_some]
      rfl
    exact ⟨hinner, hinner⟩

end

/-! ### What was read can be completed -/

/-- Any number of atoms. -/
inductive Atoms : List Lexeme → Prop where
  | nil : Atoms []
  | cons {atom rest : List Lexeme} {tree : Named} (h : IsAtom atom tree) (hrest : Atoms rest) :
      Atoms (atom ++ rest)

/-- Closes the given number of parentheses and ends the input, with more atoms behind each of
them. -/
inductive Closes : Nat → List Lexeme → Prop where
  | zero : Closes 0 [.eof]
  | succ {depth : Nat} {row rest : List Lexeme} (hrow : Atoms row) (hrest : Closes depth rest) :
      Closes (depth + 1) (.rparen :: (row ++ rest))

/-- What can come from a place on, up to the end of input. -/
inductive Completes : Place → List Lexeme → Prop where
  | term {depth : Nat} {row rest : List Lexeme} {tree : Named} (h : IsTerm row tree)
      (hrest : Closes depth rest) : Completes ⟨.term, depth⟩ (row ++ rest)
  | binder {depth : Nat} {param : String} {rest : List Lexeme} (h : Completes ⟨.dot, depth⟩ rest) :
      Completes ⟨.binder, depth⟩ (.ident param :: rest)
  | dot {depth : Nat} {rest : List Lexeme} (h : Completes ⟨.term, depth⟩ rest) :
      Completes ⟨.dot, depth⟩ (.dot :: rest)
  | row {depth : Nat} {row rest : List Lexeme} (h : Atoms row) (hrest : Closes depth rest) :
      Completes ⟨.row, depth⟩ (row ++ rest)
  | finished {depth : Nat} : Completes ⟨.finished, depth⟩ []

theorem Atoms.isApplication {row : List Lexeme} (h : Atoms row) {left : List Lexeme} {lhs : Named}
    (hleft : IsApplication left lhs) : ∃ tree, IsApplication (left ++ row) tree := by
  induction h generalizing left lhs with
  | nil => exact ⟨lhs, by rwa [List.append_nil]⟩
  | cons hatom _ ih =>
    rw [← List.append_assoc]
    exact ih (.app hleft hatom)

theorem exists_closes (depth : Nat) : ∃ rest, Closes depth rest := by
  induction depth with
  | zero => exact ⟨_, .zero⟩
  | succ depth ih =>
    obtain ⟨rest, hrest⟩ := ih
    exact ⟨_, .succ .nil hrest⟩

theorem exists_completes (place : Place) : ∃ rest, Completes place rest := by
  obtain ⟨stage, depth⟩ := place
  obtain ⟨rest, hrest⟩ := exists_closes depth
  have hterm : Completes ⟨.term, depth⟩ ([.ident "x"] ++ rest) :=
    .term (.application (.atom .ident)) hrest
  cases stage with
  | term => exact ⟨_, hterm⟩
  | binder => exact ⟨.ident "x" :: _, .binder (.dot hterm)⟩
  | dot => exact ⟨_, .dot hterm⟩
  | row => exact ⟨_, .row .nil hrest⟩
  | finished => exact ⟨_, .finished⟩

/-- An atom in front of more atoms is a term, and one more atom of a row. -/
theorem Completes.atom_append {depth : Nat} {atom row rest : List Lexeme} {tree : Named}
    (hatom : IsAtom atom tree) (hrow : Atoms row) (hrest : Closes depth rest) :
    Completes ⟨.term, depth⟩ (atom ++ (row ++ rest)) ∧
      Completes ⟨.row, depth⟩ (atom ++ (row ++ rest)) := by
  obtain ⟨whole, hwhole⟩ := hrow.isApplication (.atom hatom)
  rw [← List.append_assoc]
  exact ⟨.term (.application hwhole) hrest, .row (.cons hatom hrow) hrest⟩

theorem Completes.ident_cons {depth : Nat} {rest : List Lexeme} (name : String)
    (h : Completes ⟨.row, depth⟩ rest) :
    Completes ⟨.term, depth⟩ (.ident name :: rest) ∧
      Completes ⟨.row, depth⟩ (.ident name :: rest) := by
  have hatom : IsAtom [.ident name] (.var name) := .ident
  cases h with
  | row hrow hrest => exact Completes.atom_append hatom hrow hrest

theorem Completes.lparen_cons {depth : Nat} {rest : List Lexeme}
    (h : Completes ⟨.term, depth + 1⟩ rest) :
    Completes ⟨.term, depth⟩ (.lparen :: rest) ∧ Completes ⟨.row, depth⟩ (.lparen :: rest) := by
  cases h with
  | term hterm hclose =>
    cases hclose with
    | succ hrow hrest =>
      have hboth := Completes.atom_append (.paren hterm) hrow hrest
      simpa only [List.cons_append, List.append_assoc, List.nil_append] using hboth

theorem Completes.lambda_cons {depth : Nat} {rest : List Lexeme}
    (h : Completes ⟨.binder, depth⟩ rest) : Completes ⟨.term, depth⟩ (.lambda :: rest) := by
  cases h with
  | binder h =>
    cases h with
    | dot h =>
      cases h with
      | term hbody hclose => exact .term (.lam hbody) hclose

theorem Completes.cons {place place' : Place} {lexeme : Lexeme} {rest : List Lexeme}
    (hnext : place.next lexeme.kind = some place') (h : Completes place' rest) :
    Completes place (lexeme :: rest) := by
  obtain ⟨stage, depth⟩ := place
  cases stage with
  | term =>
    cases lexeme with
    | lambda =>
      cases hnext
      exact h.lambda_cons
    | lparen =>
      cases hnext
      exact h.lparen_cons.1
    | ident name =>
      cases hnext
      exact (h.ident_cons name).1
    | _ => cases hnext
  | binder =>
    cases lexeme with
    | ident param =>
      cases hnext
      exact .binder h
    | _ => cases hnext
  | dot =>
    cases lexeme with
    | dot =>
      cases hnext
      exact .dot h
    | _ => cases hnext
  | row =>
    cases lexeme with
    | lparen =>
      cases hnext
      exact h.lparen_cons.2
    | ident name =>
      cases hnext
      exact (h.ident_cons name).2
    | rparen =>
      cases depth with
      | zero => cases hnext
      | succ depth =>
        cases hnext
        cases h with
        | row hrow hrest => exact .row .nil (.succ hrow hrest)
    | eof =>
      cases depth with
      | zero =>
        cases hnext
        cases h
        exact .row .nil .zero
      | succ depth => cases hnext
    | _ => cases hnext
  | finished => cases lexeme <;> cases hnext

theorem Completes.append {front rest : List Lexeme} {place place' : Place}
    (hread : place.read (front.map Lexeme.kind) = some place') (h : Completes place' rest) :
    Completes place (front ++ rest) := by
  induction front generalizing place with
  | nil =>
    cases hread
    exact h
  | cons lexeme front ih =>
    obtain ⟨place₁, hnext, hrest⟩ := Option.bind_eq_some_iff.mp hread
    exact .cons hnext (ih hrest)

theorem exists_isTerm_of_read {front : List Lexeme}
    (h : (Place.start.read (front.map Lexeme.kind)).isSome = true) :
    ∃ lexemes tree, IsTerm lexemes tree ∧
      front.map Lexeme.kind <+: lexemes.map Lexeme.kind ++ [.eof] := by
  obtain ⟨place, hread⟩ := Option.isSome_iff_exists.mp h
  obtain ⟨rest, hrest⟩ := exists_completes place
  have hwhole : Completes ⟨.term, 0⟩ (front ++ rest) := hrest.append hread
  generalize heq : front ++ rest = whole at hwhole
  cases hwhole with
  | @term _ row _ tree hterm hclose =>
    cases hclose
    refine ⟨row, tree, hterm, rest.map Lexeme.kind, ?_⟩
    rw [← List.map_append, heq, List.map_append]
    rfl

/-! ### Viable rows are those that are read -/

theorem IsTerm.isSome_read {lexemes : List Lexeme} {tree : Named} (h : IsTerm lexemes tree)
    {kinds : List TokenKind} (hstarts : kinds <+: lexemes.map Lexeme.kind ++ [.eof]) :
    (Place.start.read kinds).isSome = true := by
  apply Place.isSome_read_of_isPrefix hstarts
  rw [Place.read_concat, Place.start, h.read 0]
  rfl

/-- Behind a name and an equals sign the reader starts over. -/
theorem viable_definition_iff {front : List Lexeme} :
    Viable (.ident :: .equal :: front.map Lexeme.kind) ↔
      (Place.start.read (front.map Lexeme.kind)).isSome = true := by
  constructor
  · intro h
    obtain ⟨lexemes, named, hquery, hstarts⟩ := h
    cases hquery with
    | definition hterm =>
      have hfront := (List.cons_prefix_cons.mp (List.cons_prefix_cons.mp hstarts).2).2
      exact hterm.isSome_read hfront
    | term hterm =>
      -- An equals sign would stand inside a term.
      have hmem := hstarts.subset (show TokenKind.equal ∈ _ from by simp)
      obtain ⟨lexeme, hlexeme, hkind⟩ : ∃ lexeme ∈ lexemes, lexeme.kind = .equal := by
        simpa using hmem
      have hequal : lexeme = .equal := by
        cases lexeme <;> first | rfl | cases hkind
      exact absurd hequal (hterm.isRow.plain lexeme hlexeme).1
  · intro h
    obtain ⟨lexemes, tree, hterm, hstarts⟩ := exists_isTerm_of_read h
    refine ⟨.ident "x" :: .equal :: lexemes, ⟨some "x", tree⟩, .definition hterm, ?_⟩
    exact List.cons_prefix_cons.mpr ⟨rfl, List.cons_prefix_cons.mpr ⟨rfl, hstarts⟩⟩

theorem viable_term_iff {front : List Lexeme}
    (hfront : ¬ [.ident, .equal] <+: front.map Lexeme.kind) :
    Viable (front.map Lexeme.kind) ↔
      (Place.start.read (front.map Lexeme.kind)).isSome = true := by
  constructor
  · intro h
    obtain ⟨lexemes, named, hquery, hstarts⟩ := h
    cases hquery with
    | definition hterm =>
      -- The row is too short to tell the definition from a term.
      generalize front.map Lexeme.kind = kinds at hfront hstarts
      match kinds, hfront, hstarts with
      | [], _, _ => rfl
      | [kind], _, hstarts =>
        cases (List.cons_prefix_cons.mp hstarts).1
        rfl
      | first :: second :: rest, hfront, hstarts =>
        obtain ⟨rfl, hrest⟩ := List.cons_prefix_cons.mp hstarts
        obtain ⟨rfl, -⟩ := List.cons_prefix_cons.mp hrest
        exact absurd ⟨rest, rfl⟩ hfront
    | term hterm => exact hterm.isSome_read hstarts
  · intro h
    obtain ⟨lexemes, tree, hterm, hstarts⟩ := exists_isTerm_of_read h
    exact ⟨lexemes, ⟨none, tree⟩, .term hterm, hstarts⟩

end Grammar

end CallByValue
