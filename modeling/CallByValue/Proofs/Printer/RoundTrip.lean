import CallByValue.Proofs.Parser.Acceptance
import CallByValue.Proofs.Printer.Display
/-!
# What is printed reads back

The text of a term spells a row of lexemes that the grammar derives as the tree the term is shown
as. Which rule derives it depends on the term: an abstraction is written as a term, an application
as an application and a variable as an atom, and parentheses turn all three into atoms. The printer
leaves parentheses out just where the rule of an operand allows it. How many frames reading the text
takes can be told from the term: every pair of parentheses takes three, and every binder one.

Reading the text back then resolves the names of the shown tree, and what comes out differs from the
term in binder names alone.
-/

namespace CallByValue

open Grammar

namespace Term

/-! ### Texts and their lexemes -/

/-- The text spells lexemes that the rule derives as the tree. -/
def Writes (rule : List Lexeme → Named → Prop) (text : String) (tree : Named) : Prop :=
  ∃ lexemes, Token.Spells text.toList lexemes ∧ rule lexemes tree

theorem Writes.mono {rule rule' : List Lexeme → Named → Prop} {text : String} {tree : Named}
    (h : Writes rule text tree) (himp : ∀ lexemes, rule lexemes tree → rule' lexemes tree) :
    Writes rule' text tree := by
  obtain ⟨lexemes, hspells, hrule⟩ := h
  exact ⟨lexemes, hspells, himp lexemes hrule⟩

theorem Writes.ident {name : String} (hname : Token.isWord name = true) :
    Writes (AtomTakes 0) name (.var name) :=
  ⟨[.ident name], .word hname, .ident⟩

section

variable {frames more : Nat}

theorem Writes.parenthesized {text : String} {tree : Named}
    (h : Writes (TermTakes frames) text tree) :
    Writes (AtomTakes (frames + 2)) (parenthesized text) tree := by
  obtain ⟨lexemes, hspells, hterm⟩ := h
  refine ⟨.lparen :: lexemes ++ [.rparen], ?_, .paren hterm⟩
  have hclose : Token.Spells [')'] [.rparen] := Token.Spells.punctuation rfl .nil
  have hinner := hspells.append hclose (.cons (by decide) [])
  have htext : (Term.parenthesized text).toList = '(' :: (text.toList ++ [')']) := by
    simp [Term.parenthesized]
  rw [htext]
  exact .punctuation rfl hinner

theorem Writes.lam {param text : String} {tree : Named} (hparam : Token.isWord param = true)
    (h : Writes (TermTakes frames) text tree) :
    Writes (TermTakes (frames + 1)) ("\\" ++ param ++ ". " ++ text) (.lam param tree) := by
  obtain ⟨lexemes, hspells, hterm⟩ := h
  refine ⟨.lambda :: .ident param :: .dot :: lexemes, ?_, .lam hterm⟩
  have hdot : Token.Spells ('.' :: ' ' :: text.toList) (.dot :: lexemes) :=
    .punctuation rfl (.blank (by decide) hspells)
  have hbinder := (Token.Spells.word hparam).append hdot (.cons (by decide) _)
  have htext : ("\\" ++ param ++ ". " ++ text).toList
      = '\\' :: (param.toList ++ '.' :: ' ' :: text.toList) := by
    simp
  rw [htext]
  exact .punctuation rfl hbinder

theorem Writes.app {left right : String} {lhs rhs : Named}
    (hleft : Writes (ApplicationTakes frames) left lhs)
    (hright : Writes (AtomTakes more) right rhs) :
    Writes (ApplicationTakes (max frames more)) (left ++ " " ++ right) (.app lhs rhs) := by
  obtain ⟨front, hfront, hlhs⟩ := hleft
  obtain ⟨back, hback, hrhs⟩ := hright
  refine ⟨front ++ back, ?_, .app hlhs hrhs⟩
  have hblank : Token.Spells (' ' :: right.toList) back := .blank (by decide) hback
  have htext : (left ++ " " ++ right).toList = left.toList ++ ' ' :: right.toList := by simp
  rw [htext]
  exact hfront.append hblank (.cons (by decide) _)

end

/-! ### Texts of terms -/

/-- How many frames reading the bare text of a term takes beside the first. -/
def frames : Term → Nat
  | .var _ => 0
  | .lam _ body => body.frames + 1
  | .app lhs rhs =>
    max (if lhs.isValue then lhs.frames + 3 else lhs.frames)
      (if rhs.isValue || rhs.isApplication then rhs.frames + 3 else rhs.frames)

/-- How many frames reading the text of a term takes. -/
def textFrames (t : Term) : Nat :=
  (if t.isValue then t.frames + 3 else t.frames) + 1

/-- The rule that derives the bare text of a term, in as many frames as reading it takes. -/
def bareRule : Term → List Lexeme → Named → Prop
  | .var _ => AtomTakes 0
  | .lam param body => TermTakes ((Term.lam param body).frames + 1)
  | .app lhs rhs => ApplicationTakes (Term.app lhs rhs).frames

theorem Writes.isTerm {t : Term} {text : String} {tree : Named}
    (h : Writes t.bareRule text tree) : Writes (TermTakes (t.frames + 1)) text tree := by
  cases t with
  | var index => exact h.mono fun _ hatom => .application (.atom hatom)
  | lam param body => exact h
  | app lhs rhs => exact h.mono fun _ happ => .application happ

/-- To the left of an argument only an abstraction needs its parentheses. -/
theorem Writes.isApplication {t : Term} {text : String} {tree : Named}
    (h : Writes t.bareRule text tree) :
    Writes (ApplicationTakes (if t.isValue then t.frames + 3 else t.frames))
      (if t.isValue then Term.parenthesized text else text) tree := by
  cases t with
  | var index => exact h.mono fun _ hatom => .atom hatom
  | lam param body => exact Writes.mono h.isTerm.parenthesized fun _ hatom => .atom hatom
  | app lhs rhs => exact h

/-- As an argument only a variable needs none. -/
theorem Writes.isAtom {t : Term} {text : String} {tree : Named}
    (h : Writes t.bareRule text tree) :
    Writes (AtomTakes (if t.isValue || t.isApplication then t.frames + 3 else t.frames))
      (if t.isValue || t.isApplication then Term.parenthesized text else text) tree := by
  cases t with
  | var index => exact h
  | lam param body => exact h.isTerm.parenthesized
  | app lhs rhs => exact h.isTerm.parenthesized

theorem bareText_writes {t : Term} {names : List String} (h : Showable t names) :
    ∃ text, t.bareText names = .ok text ∧ Writes t.bareRule text (t.shown names) := by
  induction t generalizing names with
  | var index =>
    obtain ⟨name, hname, -⟩ := h.free index (by simp [freeIndices])
    refine ⟨name, ?_, ?_⟩
    · simp only [bareText, variableText, hname]
    · rw [shown, List.getD_eq_getElem?_getD, hname, Option.getD_some]
      exact .ident (h.words name (List.mem_of_getElem? hname))
  | lam param body ih =>
    have hne := (Token.isWord_iff.mp h.param).1
    obtain ⟨text, htext, hwrites⟩ := ih h.body
    refine ⟨"\\" ++ shownName param body names ++ ". " ++ text, ?_, ?_⟩
    · rw [bareText, displayName_eq hne]
      simp only [bind, Except.bind, htext]
      rfl
    · exact Writes.lam (isWord_shownName h.param body names) hwrites.isTerm
  | app lhs rhs ihl ihr =>
    obtain ⟨left, hleft, hlhs⟩ := ihl h.lhs
    obtain ⟨right, hright, hrhs⟩ := ihr h.rhs
    refine ⟨_, ?_, hlhs.isApplication.app hrhs.isAtom⟩
    rw [bareText]
    simp only [bind, Except.bind, hleft, hright]
    rfl

theorem render_writes_frames {t : Term} {names : List String} (h : Showable t names) :
    ∃ text, t.render names = .ok text ∧
      Writes (TermTakes t.textFrames) text (t.shown names) := by
  obtain ⟨text, htext, hwrites⟩ := bareText_writes h
  refine ⟨_, ?_, hwrites.isApplication.mono fun _ happ => .application happ⟩
  rw [render, htext]
  rfl

theorem render_writes {t : Term} {names : List String} (h : Showable t names) :
    ∃ text, t.render names = .ok text ∧ Writes IsTerm text (t.shown names) := by
  obtain ⟨text, htext, hwrites⟩ := render_writes_frames h
  exact ⟨text, htext, hwrites.mono fun _ hterm => hterm.isTerm⟩

end Term

/-! ### Reading back -/

theorem Grammar.StandsFor.term {definitions : Definitions} {text : String} {tree : Named} {u : Term}
    (h : Term.Writes IsTerm text tree) (hu : tree.elaborate definitions [] = some u) :
    StandsFor definitions text (.term u) := by
  obtain ⟨lexemes, hspells, hterm⟩ := h
  obtain ⟨tokens, htokens, rfl⟩ := tokenize_of_spells hspells
  refine ⟨tokens, text.length, ⟨none, tree⟩, htokens, .term hterm, ?_⟩
  rw [NamedQuery.elaborate, hu, Option.map_some]

theorem tokenize_definition {name text : String} (hname : Token.isWord name = true)
    {lexemes : List Lexeme} (h : Token.Spells text.toList lexemes) :
    ∃ tokens stop, tokenize (name ++ " = " ++ text) = .ok (tokens ++ [⟨.eof, stop⟩]) ∧
      tokens.map Token.lexeme = .ident name :: .equal :: lexemes := by
  have hequal : Token.Spells (' ' :: '=' :: ' ' :: text.toList) (.equal :: lexemes) :=
    .blank (by decide) (.punctuation rfl (.blank (by decide) h))
  have hline := (Token.Spells.word hname).append hequal (.cons (by decide) _)
  have htext : (name ++ " = " ++ text).toList
      = name.toList ++ ' ' :: '=' :: ' ' :: text.toList := by
    simp
  rw [← htext] at hline
  obtain ⟨tokens, htokens, hlexemes⟩ := tokenize_of_spells hline
  exact ⟨tokens, _, htokens, hlexemes⟩

theorem Grammar.StandsFor.definition {definitions : Definitions} {name text : String}
    {tree : Named} {u : Term} (hname : Token.isWord name = true)
    (h : Term.Writes IsTerm text tree) (hu : tree.elaborate definitions [] = some u) :
    StandsFor definitions (name ++ " = " ++ text) (.definition name u) := by
  obtain ⟨lexemes, hspells, hterm⟩ := h
  obtain ⟨tokens, stop, htokens, hlexemes⟩ := tokenize_definition hname hspells
  refine ⟨tokens, stop, ⟨some name, tree⟩, htokens, ?_, ?_⟩
  · rw [hlexemes]
    exact .definition hterm
  · rw [NamedQuery.elaborate, hu, Option.map_some]

/-- The line of a definition is read if there are frames enough for its term, and refused if there are
not. -/
theorem parseBounded_definition {definitions : Definitions} {name text : String} {tree : Named}
    {frames : Nat} {u : Term} (hname : Token.isWord name = true)
    (h : Term.Writes (TermTakes frames) text tree) (hu : tree.elaborate definitions [] = some u) :
    parseBounded definitions (name ++ " = " ++ text)
      = if frames ≤ Parser.maxFrames then .ok (.definition name u) else .error .depthExceeded := by
  obtain ⟨lexemes, hspells, htakes⟩ := h
  obtain ⟨tokens, stop, htokens, hlexemes⟩ := tokenize_definition hname hspells
  obtain ⟨pos, later, rfl, hlater⟩ := Parser.exists_of_map_lexeme_eq_cons hlexemes
  obtain ⟨pos₁, front, rfl, hfront⟩ := Parser.exists_of_map_lexeme_eq_cons hlater
  let source : Source := ⟨name ++ " = " ++ text, definitions⟩
  simp only [parseBounded, parseWith, htokens]
  rw [List.cons_append, List.cons_append]
  by_cases hfits : frames ≤ Parser.maxFrames
  · have hread : Parser.termWithin source Parser.maxFrames [] (front ++ [⟨.eof, stop⟩])
        = .ok u [⟨.eof, stop⟩] :=
      Parser.termWithin_of_takes htakes hfront hu ⟨_, [], rfl, by simp, by simp⟩ _ hfits
    rw [if_pos hfits, Parser.queryWith_definition_of_eq_ok source hread name pos pos₁]
  · have hgivesUp : Parser.GivesUp (Parser.termWithin source Parser.maxFrames [])
        (front ++ [⟨.eof, stop⟩]) :=
      Parser.termWithin_givesUp htakes hfront hu _ _ (Nat.lt_of_not_le hfits)
    obtain ⟨rest, hread⟩ := hgivesUp
    rw [if_neg hfits, Parser.queryWith_definition]
    simp only [Functor.map, EStateM.map, bind, EStateM.bind, hread, source]

/-- **Printing and then reading back changes nothing but binder names.** For a term under names that
are not hidden, reading the printed tokens under the same names takes all of them and gives the term
back. A closed term is read back from its text as a whole line, and so is its definition, whatever
is defined. -/
theorem render_reads_back (t : Term) (hparams : ∀ param ∈ t.params, Token.isWord param = true) :
    (∀ (names : List String) (source : Source),
      (∀ name ∈ names, Token.isWord name = true) →
      (∀ index ∈ t.freeIndices 0, ∃ name, names[index]? = some name ∧ name ∉ names.take index) →
      ∃ text tokens stop u, t.render names = .ok text ∧
        tokenize text = .ok (tokens ++ [⟨.eof, stop⟩]) ∧
        Parser.term source names (tokens ++ [⟨.eof, stop⟩]) = .ok u [⟨.eof, stop⟩] ∧
        u.AlphaEq t) ∧
    (t.isClosed = true → ∀ definitions : Definitions,
      (∃ text query, (Query.term t).render = .ok text ∧ parse definitions text = .ok query ∧
        query.AlphaEq (.term t)) ∧
      ∀ name, Token.isWord name = true →
        ∃ text query, (Query.definition name t).render = .ok text ∧
          parse definitions text = .ok query ∧ query.AlphaEq (.definition name t)) := by
  constructor
  · intro names source hnames hfree
    have hshowable : t.Showable names := ⟨hparams, hnames, hfree⟩
    obtain ⟨text, htext, lexemes, hspells, hterm⟩ := Term.render_writes hshowable
    obtain ⟨tokens, htokens, rfl⟩ := tokenize_of_spells hspells
    obtain ⟨u, hu, halpha⟩ := Term.elaborate_shown source.definitions hshowable
    refine ⟨text, tokens, text.length, u, htext, htokens, ?_, halpha⟩
    exact Parser.term_of_isTerm hterm hu ⟨_, [], rfl, by simp, by simp⟩
  · intro hclosed definitions
    have hshowable := Term.Showable.of_isClosed hparams hclosed
    obtain ⟨text, htext, hwrites⟩ := Term.render_writes hshowable
    obtain ⟨u, hu, halpha⟩ := Term.elaborate_shown definitions hshowable
    refine ⟨⟨text, .term u, htext, parse_of_standsFor (.term hwrites hu), ?_⟩, ?_⟩
    · exact congrArg Query.term halpha
    · intro name hname
      refine ⟨name ++ " = " ++ text, .definition name u, ?_,
        parse_of_standsFor (.definition hname hwrites hu), ?_⟩
      · rw [Query.render, htext]
        rfl
      · exact congrArg (Query.definition name) halpha

/-- Two binders in a row give way to a free `x`, and a binder `x` is not taken for the `x` that is
defined. -/
theorem render_reads_back_shadowed :
    (∃ tokens stop u,
      Term.render (.app (.var 0) (.lam "x" (.lam "x" (.app (.var 1) (.var 2))))) ["x"]
        = .ok "x (\\xx. \\xxx. xx x)" ∧
      tokenize "x (\\xx. \\xxx. xx x)" = .ok (tokens ++ [⟨.eof, stop⟩]) ∧
      Parser.term ⟨"", .empty⟩ ["x"] (tokens ++ [⟨.eof, stop⟩]) = .ok u [⟨.eof, stop⟩] ∧
      u.AlphaEq (.app (.var 0) (.lam "x" (.lam "x" (.app (.var 1) (.var 2)))))) ∧
    ∃ text query, (Query.definition "x" (.lam "x" (.lam "x" (.app (.var 1) (.var 0))))).render
        = .ok text ∧
      parse (.ofList [("x", .var 0)]) text = .ok query ∧
      query.AlphaEq (.definition "x" (.lam "x" (.lam "x" (.app (.var 1) (.var 0))))) := by
  constructor
  · obtain ⟨text, tokens, stop, u, htext, hread⟩ :=
      (render_reads_back (.app (.var 0) (.lam "x" (.lam "x" (.app (.var 1) (.var 2)))))
        (by decide)).1 ["x"] ⟨"", .empty⟩ (by decide) (by simp [Term.freeIndices])
    have hshown : Term.render (.app (.var 0) (.lam "x" (.lam "x" (.app (.var 1) (.var 2))))) ["x"]
        = .ok "x (\\xx. \\xxx. xx x)" := by
      simp [Term.render, Term.bareText, Term.displayName, Term.referenced, Term.freeIndices,
        Term.freshen, Term.variableText, Term.isValue, Term.isApplication, Term.parenthesized, bind,
        Except.bind, pure, Except.pure]
    cases htext.symm.trans hshown
    exact ⟨tokens, stop, u, hshown, hread⟩
  · exact ((render_reads_back (.lam "x" (.lam "x" (.app (.var 1) (.var 0)))) (by decide)).2
      (by decide) (.ofList [("x", .var 0)])).2 "x" (by decide)

/-- **A text that was read back is printed again as it stands.** The text of a closed term, and that
of its definition under any name, gives a query with the very same text, whatever is defined: the
binders that had to give way when the text was written are read under their new names, and these
capture nothing. -/
theorem render_is_stable (t : Term) (hparams : ∀ param ∈ t.params, Token.isWord param = true)
    (hclosed : t.isClosed = true) (definitions : Definitions) :
    (∃ text query, (Query.term t).render = .ok text ∧ parse definitions text = .ok query ∧
      query.render = .ok text) ∧
    ∀ name, Token.isWord name = true →
      ∃ text query, (Query.definition name t).render = .ok text ∧
        parse definitions text = .ok query ∧ query.render = .ok text := by
  have hshowable := Term.Showable.of_isClosed hparams hclosed
  obtain ⟨text, htext, hwrites⟩ := Term.render_writes hshowable
  have hread := Term.elaborate_shown_eq definitions hshowable
  have hagain : (t.relabelled []).render [] = .ok text :=
    (Term.render_relabelled hshowable).trans htext
  constructor
  · exact ⟨text, .term (t.relabelled []), htext, parse_of_standsFor (.term hwrites hread), hagain⟩
  · intro name hname
    refine ⟨name ++ " = " ++ text, .definition name (t.relabelled []), ?_,
      parse_of_standsFor (.definition hname hwrites hread), ?_⟩
    · rw [Query.render, htext]
      rfl
    · rw [Query.render, hagain]
      rfl

/-- The inner binder gives way to the outer one, once, also where its new name is that of a
definition. -/
theorem render_is_stable_renamed :
    (Query.definition "f" (.lam "x" (.lam "x" (.app (.var 1) (.var 0))))).render
      = .ok "f = (\\x. \\xx. x xx)" ∧
    ∃ query, parse (.ofList [("xx", .lam "y" (.var 0))]) "f = (\\x. \\xx. x xx)" = .ok query ∧
      query.render = .ok "f = (\\x. \\xx. x xx)" := by
  obtain ⟨text, query, htext, hquery⟩ :=
    (render_is_stable (.lam "x" (.lam "x" (.app (.var 1) (.var 0)))) (by decide) (by decide)
      (.ofList [("xx", .lam "y" (.var 0))])).2 "f" (by decide)
  have hshown : (Query.definition "f" (.lam "x" (.lam "x" (.app (.var 1) (.var 0))))).render
      = .ok "f = (\\x. \\xx. x xx)" := by
    simp [Query.render, Term.render, Term.bareText, Term.displayName, Term.referenced,
      Term.freeIndices, Term.freshen, Term.variableText, Term.isValue, Term.isApplication,
      Term.parenthesized, bind, Except.bind, pure, Except.pure]
  cases htext.symm.trans hshown
  exact ⟨hshown, query, hquery⟩

end CallByValue
