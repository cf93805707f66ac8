import CallByValue.Fault
/-!
# Diagnostics are filled templates

A message is written down as text and snippets in a row. As a template it is the same text with an
empty pair of braces for each snippet, and filling the braces can fail in many ways. A recipe says
which template a diagnostic is made from and what fills it. Those of the program's own diagnostics
never fail: their text has no braces, the braces are filled in turn, there is a snippet for each, and
a snippet is copied and never read as a template. So whatever a line holds, the diagnostic about it
can be made, and it is the one that is written down.

Whether it can also be shown depends on the part that it blames, which has to lie `Within` the
expression, or at most one place behind it.
-/

namespace CallByValue

namespace Piece

/-- The template of a row of pieces. -/
def template (pieces : List Piece) : String :=
  render (fun _ => "\x7b\x7d") pieces

theorem toList_render_text (f : String → String) (s : String) (pieces : List Piece) :
    (render f (.text s :: pieces)).toList = s.toList ++ (render f pieces).toList := by
  simp [render]

theorem toList_render_snippet (f : String → String) (s : String) (pieces : List Piece) :
    (render f (.snippet s :: pieces)).toList = (f s).toList ++ (render f pieces).toList := by
  simp [render]

/-- What the braces of the template stand for. -/
def snippets (pieces : List Piece) : List String :=
  pieces.filterMap fun
    | .text _ => none
    | .snippet s => some s

/-- The text between the snippets has no braces. -/
def isPlain : Piece → Bool
  | .text s => s.toList.all fun c => c ≠ Template.openBrace && c ≠ Template.closeBrace
  | .snippet _ => true

end Piece

namespace Template

theorem segments_literal {c : Char} (hopen : c ≠ openBrace) (hclose : c ≠ closeBrace)
    (cs : List Char) : segments .outside (c :: cs) = .literal c :: segments .outside cs := by
  cases cs with
  | nil => simp only [segments, if_neg hopen, if_neg hclose]
  | cons d cs => simp only [segments, if_neg hopen, if_neg hclose]

theorem segments_braces (cs : List Char) :
    segments .outside (openBrace :: closeBrace :: cs)
      = .field ⟨[], none, []⟩ :: segments .outside cs := by
  simp [segments, openBrace, closeBrace]

/-- Where the next unnamed field stands in the row of snippets. -/
inductive Numbering.IsAt : Numbering → Nat → Prop where
  | start : IsAt .undecided 0
  | later (next : Nat) : IsAt (.automatic next) next

variable {snippets : List String}
  {expand : Numbering → List Char → Except Fault (List Text.Run × Numbering)}

/-- Literal characters are copied, and what follows them is filled as it would be without them. -/
theorem fillSegments_literals {numbering : Numbering} {rest : List Segment} {runs : List Text.Run}
    {last : Numbering} (hrest : fillSegments snippets expand numbering rest = .ok (runs, last))
    (cs : List Char) :
    fillSegments snippets expand numbering (cs.map .literal ++ rest)
      = .ok (Text.Run.ofChars cs ++ runs, last) := by
  induction cs with
  | nil => exact hrest
  | cons c cs ih =>
    rw [List.map_cons, List.cons_append, fillSegments, ih]
    rfl

theorem segments_text {s : String} (hs : (Piece.text s).isPlain = true) (rest : List Char) :
    segments .outside (s.toList ++ rest) = s.toList.map .literal ++ segments .outside rest := by
  simp only [Piece.isPlain, List.all_eq_true, Bool.and_eq_true, decide_eq_true_eq] at hs
  generalize s.toList = cs at hs
  induction cs with
  | nil => rfl
  | cons c cs ih =>
    obtain ⟨hopen, hclose⟩ := hs c List.mem_cons_self
    have htail := ih fun d hd => hs d (List.mem_cons_of_mem _ hd)
    rw [List.cons_append, segments_literal hopen hclose, htail, List.map_cons, List.cons_append]

theorem fillSegments_snippet {s : String} {numbering : Numbering} {index : Nat}
    (hat : numbering.IsAt index) (hs : snippets[index]? = some s) {rest : List Char}
    {runs : List Text.Run} {last : Numbering}
    (hrest : fillSegments snippets expand (.automatic (index + 1)) (segments .outside rest)
      = .ok (runs, last)) :
    fillSegments snippets expand numbering (segments .outside (openBrace :: closeBrace :: rest))
      = .ok (Text.Run.ofChars s.toList ++ runs, last) := by
  have hindex : numbering.index [] = .ok (index, .automatic (index + 1)) := by
    cases hat <;> rfl
  have hfill : Field.fill ⟨[], none, []⟩ snippets numbering expand
      = .ok (Text.Run.ofChars s.toList, .automatic (index + 1)) := by
    simp only [Field.fill, List.takeWhile_nil, hindex, bind, Except.bind, hs]
    rfl
  rw [segments_braces, fillSegments, hfill]
  simp only [bind, Except.bind, hrest]
  rfl

theorem fillSegments_pieces (f : String → String) {pieces : List Piece}
    (hplain : pieces.all Piece.isPlain = true) {numbering : Numbering} {index : Nat}
    (hat : numbering.IsAt index) (hsnippets : snippets.drop index = (Piece.snippets pieces).map f) :
    ∃ last, fillSegments snippets expand numbering (segments .outside (Piece.template pieces).toList)
      = .ok (Text.Run.ofChars (Piece.render f pieces).toList, last) := by
  induction pieces generalizing numbering index with
  | nil => exact ⟨numbering, rfl⟩
  | cons piece pieces ih =>
    rw [List.all_cons, Bool.and_eq_true] at hplain
    obtain ⟨hpiece, hpieces⟩ := hplain
    cases piece with
    | text s =>
      obtain ⟨last, hrest⟩ := ih hpieces hat hsnippets
      refine ⟨last, ?_⟩
      rw [Piece.template, Piece.toList_render_text, Piece.toList_render_text]
      rw [segments_text hpiece]
      refine (fillSegments_literals hrest s.toList).trans ?_
      simp [Text.Run.ofChars]
    | snippet s =>
      have hfirst : snippets[index]? = some (f s) := by
        rw [← Nat.add_zero index, ← List.getElem?_drop, hsnippets]
        rfl
      have hothers : snippets.drop (index + 1) = (Piece.snippets pieces).map f := by
        rw [← List.drop_drop, hsnippets]
        rfl
      obtain ⟨last, hrest⟩ := ih hpieces (.later (index + 1)) hothers
      refine ⟨last, ?_⟩
      rw [Piece.template, Piece.toList_render_snippet, Piece.toList_render_snippet]
      refine (fillSegments_snippet hat hfirst hrest).trans ?_
      simp [Text.Run.ofChars]

theorem fillRuns_pieces (f : String → String) {pieces : List Piece}
    (hplain : pieces.all Piece.isPlain = true) :
    fillRuns (Piece.template pieces) ((Piece.snippets pieces).map f)
      = .ok (Text.Run.ofChars (Piece.render f pieces).toList) := by
  obtain ⟨last, hfill⟩ := fillSegments_pieces f hplain .start rfl
  rw [fillRuns, maxNesting, fillWithin, hfill]
  rfl

end Template

theorem Message.ofRuns_ofChars (plain styled : String) :
    ofRuns (Text.Run.ofChars plain.toList) (Text.Run.ofChars styled.toList)
      = .filled plain styled := by
  have hwritten (cs : List Char) : (Text.Run.ofChars cs).all Text.Run.isWritten = true := by
    simp [Text.Run.ofChars, Text.Run.isWritten, Text.Run.maxWritten]
  simp [ofRuns, hwritten]

namespace Diagnostic

/-- The diagnostic with its message as it is shown in a style. -/
def inStyle (style : Text.Style) (d : Diagnostic) : Diagnostic :=
  { d with message := .filled d.message.plain (d.message.styled style) }

/-! ### Recipes -/

/-- What a diagnostic is made from: a template, what it is filled with, and the rest. -/
structure Recipe where
  template : String
  snippets : List String
  options : DiagnosticOptions

namespace Recipe

/-- The diagnostic comes out, in whatever style its snippets are shown. -/
def Makes (recipe : Recipe) (d : Diagnostic) : Prop :=
  ∀ style, ofTemplate style recipe.template recipe.snippets recipe.options = .ok (d.inStyle style)

def unrecognized (expr : String) (c : Char) (pos : Nat) : Recipe where
  template := "'\x7b\x7d' contains unrecognized character '\x7b\x7d'"
  snippets := [expr, String.singleton c]
  options := { kind := .unrecognized, start := pos, stop := pos + 1 }

def unexpected (expr expected found : String) (pos width : Nat) : Recipe where
  template := "'\x7b\x7d' expected \x7b\x7d, found \x7b\x7d"
  snippets := [expr, expected, found]
  options := { kind := .unexpected, start := pos, stop := pos + width }

def unbound (expr name : String) (pos : Int) : Recipe where
  template := "'\x7b\x7d' contains unbound identifier '\x7b\x7d'"
  snippets := [expr, name]
  options := { kind := .unbound, start := pos, stop := pos + name.length }

def nonTermination (limit : String) : Recipe where
  template := "no value reached after \x7b\x7d β-reductions"
  snippets := [limit]
  options := { kind := .nonTermination, shown := false }

def overwrites (expr name : String) (start : Int) : Recipe where
  template := "'\x7b\x7d' overwrites previous definition of '\x7b\x7d'"
  snippets := [expr, name]
  options := { start, stop := start + name.length }

end Recipe

/-- Filling the template of a row of pieces gives those pieces as the message, and the first snippet
as the expression. -/
theorem ofTemplate_pieces (style : Text.Style) {pieces : List Piece}
    (hplain : pieces.all Piece.isPlain = true) {expr : String} {later : List String}
    (hsnippets : Piece.snippets pieces = expr :: later) (options : DiagnosticOptions) :
    ofTemplate style (Piece.template pieces) (Piece.snippets pieces) options
      = .ok { kind := options.kind,
              message := .filled (Piece.render id pieces) (Piece.render style.bold pieces),
              expr, start := options.start, stop := stopIn expr options.stop,
              shown := options.shown, internal := options.internal } := by
  have hstyled := Template.fillRuns_pieces style.bold hplain
  have hbare := Template.fillRuns_pieces id hplain
  rw [List.map_id, hsnippets] at hbare
  rw [hsnippets] at hstyled ⊢
  simp only [ofTemplate, hstyled, hbare, Message.ofRuns_ofChars]

theorem stopIn_of_nonneg {stop : Int} (h : 0 ≤ stop) (expr : String) : stopIn expr stop = stop := by
  rw [stopIn, if_neg (by omega)]

namespace Recipe

theorem makes_of_pieces {recipe : Recipe} {d : Diagnostic} {pieces : List Piece}
    {later : List String} (hmessage : d.message = .ofPieces pieces)
    (hplain : pieces.all Piece.isPlain = true) (htemplate : recipe.template = Piece.template pieces)
    (hsnippets : recipe.snippets = Piece.snippets pieces)
    (hexpr : Piece.snippets pieces = d.expr :: later)
    (hoptions : recipe.options.kind = d.kind ∧ recipe.options.start = d.start ∧
      stopIn d.expr recipe.options.stop = d.stop ∧ recipe.options.shown = d.shown ∧
      recipe.options.internal = d.internal) :
    recipe.Makes d := by
  intro style
  obtain ⟨hkind, hstart, hstop, hshown, hinternal⟩ := hoptions
  rw [htemplate, hsnippets, ofTemplate_pieces style hplain hexpr, hkind, hstart, hstop, hshown,
    hinternal, inStyle, hmessage]
  rfl

theorem makes_unrecognized (expr : String) (c : Char) (pos : Nat) :
    (unrecognized expr c pos).Makes (.unrecognized expr c pos) :=
  makes_of_pieces rfl rfl rfl rfl rfl
    ⟨rfl, rfl, stopIn_of_nonneg (by dsimp only [unrecognized]; omega) expr, rfl, rfl⟩

theorem makes_unexpected (expr expected found : String) (pos width : Nat) :
    (unexpected expr expected found pos width).Makes
      (.unexpected expr expected found pos width) :=
  makes_of_pieces rfl rfl rfl rfl rfl
    ⟨rfl, rfl, stopIn_of_nonneg (by dsimp only [unexpected]; omega) expr, rfl, rfl⟩

theorem makes_unbound (expr name : String) (pos : Int) :
    (unbound expr name pos).Makes (.unbound expr name pos) :=
  makes_of_pieces rfl rfl rfl rfl rfl ⟨rfl, rfl, rfl, rfl, rfl⟩

theorem makes_nonTermination (limit : String) :
    (nonTermination limit).Makes (.nonTermination limit) :=
  makes_of_pieces rfl rfl rfl rfl rfl ⟨rfl, rfl, rfl, rfl, rfl⟩

theorem makes_overwrites (expr name : String) {start : Int} (hstart : 0 ≤ start) :
    (overwrites expr name start).Makes (.overwrites expr name start) :=
  makes_of_pieces rfl rfl rfl rfl rfl
    ⟨rfl, rfl, stopIn_of_nonneg (by dsimp only [overwrites]; omega) expr, rfl, rfl⟩

end Recipe

/-! ### The part to blame -/

/-- The part that a diagnostic blames lies within its expression, with the end of input counted as
one more place. -/
structure Within (d : Diagnostic) : Prop where
  nonneg : 0 ≤ d.start
  start_le : d.start ≤ d.expr.length
  stop_le : d.stop ≤ d.expr.length + 1
  isWritten : d.message.isWritten = true

theorem general_within (text : String) : (general text).Within := by
  refine ⟨?_, ?_, ?_, rfl⟩ <;> dsimp only [general] <;> omega

theorem nonTermination_within (limit : String) : (nonTermination limit).Within := by
  refine ⟨?_, ?_, ?_, rfl⟩ <;> dsimp only [nonTermination] <;> omega

theorem unrecognized_within {expr : String} {pos : Nat} (h : pos < expr.length) (c : Char) :
    (unrecognized expr c pos).Within := by
  refine ⟨?_, ?_, ?_, rfl⟩ <;> dsimp only [unrecognized] <;> omega

theorem unexpected_within {expr : String} {pos width : Nat} (hpos : pos ≤ expr.length)
    (hstop : pos + width ≤ expr.length + 1) (expected found : String) :
    (unexpected expr expected found pos width).Within := by
  refine ⟨?_, ?_, ?_, rfl⟩ <;> dsimp only [unexpected] <;> omega

theorem unbound_within {expr name : String} {pos : Nat} (hpos : pos ≤ expr.length)
    (hstop : pos + name.length ≤ expr.length + 1) : (unbound expr name pos).Within := by
  have hend : stopIn expr (pos + name.length) = pos + name.length :=
    stopIn_of_nonneg (by omega) expr
  refine ⟨?_, ?_, ?_, rfl⟩ <;> dsimp only [unbound] <;> omega

end Diagnostic

end CallByValue
