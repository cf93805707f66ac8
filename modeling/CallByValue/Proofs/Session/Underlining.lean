import CallByValue.Proofs.Parser.Leftmost
import CallByValue.Proofs.Session.Independence
import CallByValue.Proofs.Tokenization
/-!
# What is underlined is what offends

The positions of a diagnostic are computed in different places: by the lexer for a character, by the
parser for a token or a name, and by a search in the line for a name that is redefined. They agree.
Of a line that is to blame the first character or token that offends is underlined, from its first
character to its last, and of a redefinition the name in front of the equals sign. The search cannot
find the name any earlier, since in front of the first token there are only blanks.

Evaluation has no part in this. A diagnostic that comes from it blames the limit, because writing
terms fails only with defects.
-/

namespace CallByValue

/-! ### What offends first -/

/-- What offends first in a line is written as `part`, and a diagnostic about it is of this kind. It
is a character that belongs to no token; or, where the line is cut into tokens, one that is
misplaced, or a name that stands for nothing. -/
inductive FirstOffence (definitions : Definitions) (expr : String) :
    DiagnosticKind → (front part back : List Char) → Prop where
  | character {front back : List Char} {c : Char} (hexpr : expr.toList = front ++ c :: back)
      (hfront : ∀ d ∈ front, Token.isRecognized d = true) (hc : Token.isRecognized c = false) :
      FirstOffence definitions expr .unrecognized front [c] back
  | token {tokens : List Token} {k : Nat} {token : Token} {kind : DiagnosticKind}
      {front part back : List Char} (htokens : tokenize expr = .ok tokens)
      (htoken : tokens[k]? = some token) (hexpr : expr.toList = front ++ part ++ back)
      (hstands : token.StandsBetween front part back)
      (hfirst : ∀ j < k, ¬ Offends definitions tokens j)
      (hoffends : Misplaced tokens k ∧ kind = .unexpected ∨
        Unresolved definitions tokens k ∧ kind = .unbound) :
      FirstOffence definitions expr kind front part back

theorem Lexeme.Writing.width_eq {lexeme : Lexeme} {part : List Char} (h : lexeme.Writing part) :
    lexeme.width = max 1 part.length := by
  rw [h.length_eq]
  cases lexeme <;> rfl

theorem Parser.Blames.exists_token {source : Source} {tokens : List Token} {d : Diagnostic}
    (h : Parser.Blames source tokens (.diagnostic d))
    (hstands : ∀ token ∈ tokens, token.StandsIn source.expr.toList) :
    ∃ token ∈ tokens, d.expr = source.expr ∧ d.start = token.pos ∧
      d.stop = token.pos + token.lexeme.width := by
  generalize hfault : Fault.diagnostic d = fault at h
  cases h with
  | token hmem expected =>
    cases hfault
    exact ⟨_, hmem, rfl, rfl, rfl⟩
  | @name name pos hmem =>
    cases hfault
    obtain ⟨front, part, back, -, hbetween⟩ := hstands _ hmem
    have hname : max 1 name.length = name.length := by
      obtain ⟨c, tail, rfl⟩ := hbetween.writing.exists_cons (by simp)
      have hlength : (c :: tail).length = name.length := hbetween.writing.length_eq
      rw [← hlength, List.length_cons]
      omega
    have hstop : Diagnostic.stopIn source.expr (pos + name.length) = pos + name.length := by
      rw [Diagnostic.stopIn, if_neg (by omega)]
    refine ⟨_, hmem, rfl, rfl, ?_⟩
    rw [Lexeme.width, hname]
    exact hstop

/-- A line that is not read is underlined where it offends first. -/
theorem exists_underlines_of_parse {definitions : Definitions} {expr : String} {d : Diagnostic}
    (h : parse definitions expr = .error (.diagnostic d)) :
    ∃ front part back, FirstOffence definitions expr d.kind front part back ∧
      d.Underlines expr front part back := by
  cases htokens : tokenize expr with
  | error fault =>
    cases h.symm.trans (parse_of_tokenize_eq_error htokens definitions)
    obtain ⟨front, c, back, hexpr, hfront, hc, hfault⟩ := exists_unrecognized_of_tokenize htokens
    cases hfault
    refine ⟨front, [c], back, .character hexpr hfront hc, ?_⟩
    exact Diagnostic.underlines_of_split rfl (by simp [hexpr]) (by simp) rfl rfl
  | ok tokens =>
    rcases not_offends_or_blamesFirst definitions htokens with
      ⟨query, hparse, -⟩ | ⟨d', hparse, hblames⟩
    · cases hparse.symm.trans h
    · cases hparse.symm.trans h
      have htokenization := isTokenization_of_tokenize htokens
      obtain ⟨k, token, htoken, hstart, hfirst, hcause⟩ := hblames d rfl
      have hmem := List.mem_of_getElem? htoken
      obtain ⟨token', hmem', hexpr, hstart', hstop⟩ :=
        (blames_of_parse htokens h).exists_token htokenization.stands
      have hpos : token'.pos = token.pos := by omega
      obtain rfl := htokenization.eq_of_pos_eq hmem' hmem hpos
      obtain ⟨front, part, back, hsplit, hstands⟩ := htokenization.stands token' hmem
      refine ⟨front, part, back, .token htokens htoken hsplit hstands hfirst hcause, ?_⟩
      apply Diagnostic.underlines_of_split hexpr hsplit
      · intro hpart
        apply hstands.last
        by_contra hne
        obtain ⟨c, tail, hcons⟩ := hstands.writing.exists_cons hne
        cases hpart.symm.trans hcons
      · rw [hstart', hstands.pos_eq]
      · rw [hstop, hstands.pos_eq, hstands.writing.width_eq]

/-! ### The name that is redefined -/

theorem exists_nameStart_eq {expr name : String} (h : definedIn? expr = some name) :
    ∃ front back later, tokenize expr = .ok (⟨.ident name, front.length⟩ :: later) ∧
      expr.toList = front ++ name.toList ++ back ∧ name.toList ≠ [] ∧
      Session.nameStart expr name = front.length := by
  obtain ⟨pos, later, htokens⟩ := exists_tokenize_of_definedIn? h
  have htokenization := isTokenization_of_tokenize htokens
  obtain ⟨front, part, back, hsplit, hpos, hwriting, -, -⟩ :=
    htokenization.stands _ List.mem_cons_self
  dsimp only at hpos hwriting
  subst hpos
  obtain ⟨c, rest, hcons⟩ := hwriting.exists_cons (by simp)
  have hname : name.toList = c :: rest := hwriting.eq_toList.symm.trans hcons
  have hfront : c ∉ front := by
    intro hmem
    obtain ⟨place, hlt, hplace⟩ := List.mem_iff_getElem.mp hmem
    have hc : expr.toList[place]? = some c := by
      rw [hsplit, List.append_assoc, List.getElem?_append_left hlt, List.getElem?_eq_getElem hlt,
        hplace]
    have hblank := htokenization.isBlank_of_lt hlt hc
    rw [hwriting.isBlank_eq_false (by simp [hcons])] at hblank
    cases hblank
  rw [hwriting.eq_toList, hname] at hsplit
  refine ⟨front, back, later, htokens, by rw [hsplit, hname], by simp [hname], ?_⟩
  rw [Session.nameStart, hname, hsplit, List.append_assoc, Text.position?_append hfront]

theorem Diagnostic.overwrites_underlines {expr name : String} {front back : List Char}
    (hsplit : expr.toList = front ++ name.toList ++ back) (hname : name.toList ≠ [])
    (hstart : Session.nameStart expr name = front.length) :
    (overwrites expr name (Session.nameStart expr name)).Underlines expr front name.toList back := by
  have hlength : max 1 name.toList.length = name.length := by
    have hpos := List.length_pos_iff.mpr hname
    rw [← String.length_toList]
    omega
  refine underlines_of_split rfl hsplit (fun hnil => absurd hnil hname) hstart ?_
  rw [hlength, overwrites, hstart]

namespace Session

variable {session next : Session} {expr : String}

theorem parse_of_answer_eq_error (hveto : session.veto = none)
    {d : Diagnostic} (h : session.answer expr = .error (.diagnostic d))
    (hkind : d.kind ≠ .nonTermination) :
    parse session.definitions expr = .error (.diagnostic d) := by
  rcases answer_eq_error_iff.mp h with hresult | ⟨query, -, htext⟩
  · rw [evaluate, Reducer.run] at hresult
    cases hread : parseBounded session.definitions expr with
    | error fault =>
      rw [hread] at hresult
      cases hresult
      rcases parseBounded_eq_or session.definitions expr with heq | hdeep
      · exact heq.symm.trans hread
      · cases hread.symm.trans hdeep
    | ok query =>
      rw [hread] at hresult
      simp only [Reducer.evaluate, Reducer.reduce] at hresult
      split at hresult
      · cases hresult
      · next fault progress hrun =>
        cases hresult
        exact absurd (Reducer.kind_of_reduceNext hveto (Reducer.tracing_ne_diagnostic _ _ _) hrun)
          hkind
  · exact absurd htext (query.renderBounded_ne_diagnostic d)

/-- Where the session's file is the only one, no other line is shown to be worked on. -/
theorem activeLines_working (horigins : session.reporter.origins.names = [session.path])
    (hne : expr ≠ "") (number : Int) :
    (session.working expr number).reporter.activeLines
      = [⟨session.path, expr, some number⟩] := by
  obtain ⟨output, hworking⟩ := working_eq session expr number
  obtain ⟨⟨path, line⟩, hentries, hpath⟩ := List.map_eq_singleton_iff.mp horigins
  have hinsert : session.reporter.origins.insert session.path ⟨some expr, some number⟩
      = ⟨[(session.path, ⟨some expr, some number⟩)]⟩ := by
    rw [NameMap.insert, hentries, NameMap.insertEntry, if_pos hpath]
  rw [hworking, Reporter.activeLines]
  dsimp only
  rw [hinsert]
  simp [hne]

theorem namedIn_of_answer {query : Query} {text : String}
    (h : session.answer expr = .ok (query, text)) : NamedIn query expr := by
  rintro name body rfl
  obtain ⟨front, back, later, -, hsplit, -, -⟩ := exists_nameStart_eq (definedIn?_of_answer h)
  exact ⟨front, back, hsplit.symm⟩

theorem exists_answer_of_add {query : Query} {number : Int}
    (h : add expr number session = .ok query next) :
    ∃ text, session.answer expr = .ok (query, text) ∧
      next = session.keeping query text (session.addingOutput expr number query) := by
  cases hanswer : session.answer expr with
  | error fault => cases h.symm.trans (add_of_answer_eq_error hanswer number)
  | ok answer =>
    obtain ⟨query', text⟩ := answer
    rcases add_cases hanswer (namedIn_of_answer hanswer) number with hadd | ⟨hadd, -⟩
    · cases h.symm.trans hadd
      exact ⟨text, rfl, rfl⟩
    · cases h.symm.trans hadd

theorem exists_add_of_outcome_eq_ok {query : Query} {number : Int}
    (h : session.outcome expr number = .ok query) :
    ∃ next, add expr number session = .ok query next := by
  unfold outcome at h
  split at h
  · next hadd =>
    cases h
    exact ⟨_, hadd⟩
  · cases h

theorem exists_add_of_outcome_eq_error {fault : Fault} {number : Int}
    (h : session.outcome expr number = .error fault) :
    ∃ next, add expr number session = .error fault next := by
  unfold outcome at h
  split at h
  · cases h
  · next hadd =>
    cases h
    exact ⟨_, hadd⟩

/-- **Diagnostics underline exactly what offends.** If a line is to blame for its failure, the first
character or token that offends is underlined, and at the end of input there is a caret behind the
line. If a line redefines a name, the name in front of the equals sign is underlined, and the column
that the warning gives is the one where it begins. This holds whatever is defined and whatever the
style makes of bold and coloured texts; that nothing forbids contractions is true of every session
that comes about. -/
theorem underlines_first_offence {session : Session} (hveto : session.veto = none)
    (horigins : session.reporter.origins.names = [session.path]) (expr : String) (number : Int) :
    (∀ d next, add expr number session = .error (.diagnostic d) next →
      d.kind = .unrecognized ∨ d.kind = .unexpected ∨ d.kind = .unbound →
      ∃ front part back, FirstOffence session.definitions expr d.kind front part back ∧
        d.Underlines expr front part back) ∧
    ∀ name body next, add expr number session = .ok (.definition name body) next →
      session.definitions.contains name = true →
      ∃ front back later d, tokenize expr = .ok (⟨.ident name, front.length⟩ :: later) ∧
        d = Diagnostic.overwrites expr name (nameStart expr name) ∧
        d.Underlines expr front name.toList back ∧
        next.reporter.output = (session.working expr number).reporter.output ++
          (session.reporter.style.bold
              (session.path ++ ":" ++ toString number ++ ":" ++ toString (d.start + 1) ++ ": ") ++
            session.reporter.style.boldIn .magenta "warning: " ++
            d.message.styled session.reporter.style ++ "\n" ++
            Diagnostic.drawing session.reporter.style .magenta front name.toList back ++
            "\n") := by
  constructor
  · intro d next hadd hkind
    apply exists_underlines_of_parse
    cases hanswer : session.answer expr with
    | ok answer =>
      obtain ⟨query, text⟩ := answer
      rcases add_cases hanswer (namedIn_of_answer hanswer) number with hadd' | ⟨hadd', -⟩
      · cases hadd.symm.trans hadd'
      · cases hadd.symm.trans hadd'
    | error fault =>
      cases hadd.symm.trans (add_of_answer_eq_error hanswer number)
      apply parse_of_answer_eq_error hveto hanswer
      rcases hkind with hkind | hkind | hkind <;> rw [hkind] <;> nofun
  · intro name body next hadd hcontains
    obtain ⟨text, hanswer, rfl⟩ := exists_answer_of_add hadd
    obtain ⟨front, back, later, htokens, hsplit, hname, hstart⟩ :=
      exists_nameStart_eq (definedIn?_of_answer hanswer)
    have hne : expr ≠ "" := by
      rintro rfl
      simp [hname] at hsplit
    have hunderlines := Diagnostic.overwrites_underlines hsplit hname hstart
    have hshown : (Diagnostic.overwrites expr name (nameStart expr name)).isShown = true := by
      simp [Diagnostic.isShown, Diagnostic.overwrites, hne]
    refine ⟨front, back, later, _, htokens, rfl, hunderlines, ?_⟩
    have hstoring : (session.working expr number).storingText expr (.definition name body)
        = (session.working expr number).reporter.warningText
            (.overwrites expr name (nameStart expr name)) := if_pos hcontains
    change session.addingOutput expr number (.definition name body) = _
    have hstyle : (session.working expr number).reporter.style = session.reporter.style := by
      obtain ⟨output, hworking⟩ := working_eq session expr number
      rw [hworking]
    rw [addingOutput, hstoring,
      Reporter.warningText_of_activeLines (activeLines_working horigins hne number) rfl,
      hunderlines.shownText_eq hshown, hstyle]
    simp only [ActiveLine.shownNumber, String.append_assoc]

/-- A closing parenthesis too many is underlined, and so is a name that is defined once more, behind
the blank at the start of its line. -/
theorem underlines_first_offence_typedIn :
    ∃ session, Reachable session ∧
      (∃ d next front part back, add "f f)" 2 session = .error (.diagnostic d) next ∧
        d = .unexpected "f f)" "end of input" "')'" 3 1 ∧
        FirstOffence session.definitions "f f)" d.kind front part back ∧
        d.Underlines "f f)" front part back) ∧
      ∃ next front back d, add " f = \\y. y" 3 session
          = .ok (.definition "f" (.lam "y" (.var 0))) next ∧
        d = Diagnostic.overwrites " f = \\y. y" "f" 1 ∧
        d.Underlines " f = \\y. y" front "f".toList back := by
  let session := after (add "f = \\x. x" 1) (new (.new .terminal false) Session.typedIn true none)
  have hreachable : Reachable session := .add (.typedIn (.new .terminal false) none) "f = \\x. x" 1
  have horigins : session.reporter.origins.names = [session.path] := by decide +kernel
  refine ⟨session, hreachable, ?_, ?_⟩
  · have hfails : session.outcome "f f)" 2
        = .error (.diagnostic (.unexpected "f f)" "end of input" "')'" 3 1)) := by
      decide +kernel
    obtain ⟨next, hadd⟩ := exists_add_of_outcome_eq_error hfails
    obtain ⟨front, part, back, hoffence⟩ :=
      (underlines_first_offence hreachable.sound.veto horigins "f f)" 2).1 _ next hadd
        (.inr (.inl rfl))
    exact ⟨_, next, front, part, back, hadd, rfl, hoffence⟩
  · have hadds : session.outcome " f = \\y. y" 3 = .ok (.definition "f" (.lam "y" (.var 0))) := by
      decide +kernel
    obtain ⟨next, hadd⟩ := exists_add_of_outcome_eq_ok hadds
    obtain ⟨front, back, later, d, -, hd, hunderlines, -⟩ :=
      (underlines_first_offence hreachable.sound.veto horigins " f = \\y. y" 3).2 _ _ next hadd
        (by decide +kernel)
    exact ⟨next, front, back, d, hadd, hd, hunderlines⟩

end Session

end CallByValue
