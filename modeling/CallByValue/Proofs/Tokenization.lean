import CallByValue.Proofs.Lexing
import Mathlib.Data.List.Pairwise
import Mathlib.Data.List.Sort
/-!
# The tokens of a line

Which tokens a line has can be said without cutting it: each of them stands somewhere in the line,
written the way its lexeme is written, with no letter before or behind a word; they stand in order,
the end of input behind them; and what none of them covers is blank. At most one row of tokens is
like that. Where two tokens meet they are the same, because two runs of letters that meet and cannot
be made longer are one run, so both rows have the same tokens, and the positions put these in order.

The lexer gives this row for every line that consists of blanks, letters and marks, and blames the
first other character of any line that does not.
-/

namespace CallByValue

/-! ### How tokens are written -/

namespace Lexeme

def size : Lexeme → Nat
  | .ident name => name.length
  | .eof => 0
  | _ => 1

/-- The characters that a lexeme is written with. -/
inductive Writing : Lexeme → List Char → Prop where
  | mark {lexeme : Lexeme} {c : Char} (h : c ∈ lexeme.marks) : Writing lexeme [c]
  | word {name : String} (h : Token.isWord name = true) : Writing (.ident name) name.toList
  | eof : Writing .eof []

theorem Writing.length_eq {lexeme : Lexeme} {part : List Char} (h : lexeme.Writing part) :
    part.length = lexeme.size := by
  cases h with
  | mark h => cases lexeme <;> first | rfl | cases h
  | word h => exact String.length_toList
  | eof => rfl

end Lexeme

namespace Lexeme.Writing

variable {lexeme : Lexeme} {part : List Char}

theorem exists_cons (h : lexeme.Writing part) (hne : lexeme ≠ .eof) : ∃ c tail, part = c :: tail := by
  cases h with
  | @mark _ c hmark => exact ⟨c, [], rfl⟩
  | word hword => exact List.exists_cons_of_ne_nil (Token.toList_ne_nil_of_isWord hword)
  | eof => exact absurd rfl hne

theorem eq_toList {name : String} (h : (Lexeme.ident name).Writing part) : part = name.toList := by
  cases h with
  | mark hmark => cases hmark
  | word hword => rfl

theorem isBlank_eq_false (h : lexeme.Writing part) {c : Char} (hc : c ∈ part) :
    Text.isBlank c = false := by
  cases h with
  | mark hmark =>
    rw [List.mem_singleton.mp hc]
    exact (Token.plain_of_mem_marks hmark).1
  | word hword => exact Token.isBlank_eq_false_of_isLetter ((Token.isWord_iff.mp hword).2 c hc)
  | eof => cases hc

/-- Words, and nothing else, are written with letters. -/
theorem isLetter_iff (h : lexeme.Writing part) {c : Char} (hc : c ∈ part) :
    Token.isLetter c = true ↔ lexeme.kind = .ident := by
  cases h with
  | mark hmark =>
    rw [List.mem_singleton.mp hc, (Token.plain_of_mem_marks hmark).2]
    exact iff_of_false Bool.false_ne_true (kind_ne_of_mem_marks hmark)
  | word hword => simp [(Token.isWord_iff.mp hword).2 c hc, kind]
  | eof => cases hc

theorem isRecognized (h : lexeme.Writing part) {c : Char} (hc : c ∈ part) :
    Token.isRecognized c = true := by
  rw [Token.isRecognized_iff]
  cases h with
  | mark hmark => exact .inr (.inr ⟨lexeme, List.mem_singleton.mp hc ▸ hmark⟩)
  | word hword => exact .inr (.inl ((Token.isWord_iff.mp hword).2 c hc))
  | eof => cases hc

theorem isLetter_of_one_lt_length (h : lexeme.Writing part) (hlength : 1 < part.length) :
    ∀ c ∈ part, Token.isLetter c = true := by
  cases h with
  | mark hmark => simp at hlength
  | word hword => exact (Token.isWord_iff.mp hword).2
  | eof => simp at hlength

theorem takeWhile_word (h : lexeme.Writing part) (hkind : lexeme.kind = .ident) {back : List Char}
    (hback : Token.NoLetter back) : (part ++ back).takeWhile Token.isLetter = part := by
  have hletters : ∀ c ∈ part, Token.isLetter c = true := fun c hc => (h.isLetter_iff hc).mpr hkind
  have hstop : back.takeWhile Token.isLetter = [] := by
    cases back with
    | nil => rfl
    | cons c back => simp [hback c rfl]
  rw [List.takeWhile_append_of_pos hletters, hstop, List.append_nil]

theorem unique {lexeme' : Lexeme} (h : lexeme.Writing part) (h' : lexeme'.Writing part) :
    lexeme = lexeme' := by
  generalize hpart : part = part' at h'
  cases h with
  | mark hmark =>
    cases h' with
    | mark hmark' =>
      cases hpart
      have hfound := Token.punctuation?_eq_some_iff.mpr hmark
      exact Option.some.inj (hfound.symm.trans (Token.punctuation?_eq_some_iff.mpr hmark'))
    | word hword => exact absurd hpart.symm (Token.toList_ne_mark hword hmark)
    | eof => cases hpart
  | word hword =>
    cases h' with
    | mark hmark => exact absurd hpart (Token.toList_ne_mark hword hmark)
    | word hword' => rw [String.toList_inj.mp hpart]
    | eof => exact absurd hpart (Token.toList_ne_nil_of_isWord hword)
  | eof =>
    cases h' with
    | mark hmark => cases hpart
    | word hword => exact absurd hpart.symm (Token.toList_ne_nil_of_isWord hword)
    | eof => rfl

end Lexeme.Writing

namespace Token

/-! ### Where tokens stand -/

/-- The token stands between `front` and `back`, written as the characters there. No letter around a
word makes it longer, and nothing stands behind the end of input. -/
structure StandsBetween (front part back : List Char) (token : Token) : Prop where
  pos_eq : token.pos = front.length
  writing : token.lexeme.Writing part
  maximal : token.kind = .ident → (∀ c ∈ front.getLast?, isLetter c = false) ∧ NoLetter back
  last : token.lexeme = .eof → back = []

def StandsIn (cs : List Char) (token : Token) : Prop :=
  ∃ front part back, cs = front ++ part ++ back ∧ token.StandsBetween front part back

/-- The token is written over the place. -/
def Covers (token : Token) (place : Nat) : Prop :=
  token.pos ≤ place ∧ place < token.pos + token.lexeme.size

theorem StandsIn.pos_of_eof {cs : List Char} {pos : Nat} (h : StandsIn cs ⟨.eof, pos⟩) :
    pos = cs.length := by
  obtain ⟨front, part, back, rfl, hpos, hwriting, -, hlast⟩ := h
  have hpart := hwriting.length_eq
  rw [hlast rfl, List.append_nil, List.length_append, hpart]
  exact hpos

theorem StandsIn.exists_getElem? {cs : List Char} {token : Token} (h : token.StandsIn cs)
    (hne : token.lexeme ≠ .eof) :
    ∃ c, cs[token.pos]? = some c ∧ Text.isBlank c = false := by
  obtain ⟨front, part, back, rfl, hpos, hwriting, -, -⟩ := h
  obtain ⟨c, tail, rfl⟩ := hwriting.exists_cons hne
  refine ⟨c, ?_, hwriting.isBlank_eq_false List.mem_cons_self⟩
  rw [hpos, List.append_assoc, List.getElem?_append_right (Nat.le_refl _), Nat.sub_self]
  rfl

theorem StandsIn.isRecognized {cs : List Char} {token : Token} (h : token.StandsIn cs)
    {place : Nat} (hcovers : token.Covers place) {c : Char} (hc : cs[place]? = some c) :
    isRecognized c = true := by
  obtain ⟨front, part, back, rfl, hstands⟩ := h
  obtain ⟨hle, hlt⟩ := hcovers
  rw [← hstands.writing.length_eq, hstands.pos_eq] at hlt
  rw [hstands.pos_eq] at hle
  rw [List.append_assoc, List.getElem?_append_right hle,
    List.getElem?_append_left (by omega)] at hc
  exact hstands.writing.isRecognized (List.mem_of_getElem? hc)

theorem exists_of_meeting {front part back front' part' back' : List Char}
    (h : front ++ part ++ back = front' ++ part' ++ back') (hle : front'.length ≤ front.length)
    (hlt : front.length < front'.length + part'.length) :
    ∃ middle rest, rest ≠ [] ∧ front = front' ++ middle ∧ part' = middle ++ rest ∧
      part ++ back = rest ++ back' := by
  rw [List.append_assoc, List.append_assoc] at h
  obtain ⟨middle, rfl, hrest⟩ : ∃ middle, front = front' ++ middle ∧
      part' ++ back' = middle ++ (part ++ back) := by
    rcases List.append_eq_append_iff.mp h with ⟨middle, rfl, hrest⟩ | ⟨middle, rfl, hrest⟩
    · rw [List.length_append] at hle
      have hnil : middle = [] := List.eq_nil_of_length_eq_zero (by omega)
      subst hnil
      exact ⟨[], by simp, by simpa using hrest.symm⟩
    · exact ⟨middle, rfl, hrest⟩
  rw [List.length_append] at hlt
  rcases List.append_eq_append_iff.mp hrest with ⟨rest, rfl, hback⟩ | ⟨rest, rfl, hback⟩
  · rw [List.length_append] at hlt
    omega
  · refine ⟨middle, rest, ?_, rfl, rfl, hback⟩
    rintro rfl
    simp at hlt

theorem StandsBetween.eq {front part back part' back' : List Char} {token token' : Token}
    (h : token.StandsBetween front part back) (h' : token'.StandsBetween front part' back')
    (hne : part ≠ []) (hne' : part' ≠ []) (heq : part ++ back = part' ++ back') :
    token = token' := by
  have hpart : part = part' := by
    obtain ⟨c, tail, rfl⟩ := List.exists_cons_of_ne_nil hne
    obtain ⟨c', tail', rfl⟩ := List.exists_cons_of_ne_nil hne'
    obtain ⟨rfl, -⟩ := List.cons.inj heq
    by_cases hletter : isLetter c = true
    · have hkind := (h.writing.isLetter_iff List.mem_cons_self).mp hletter
      have hkind' := (h'.writing.isLetter_iff List.mem_cons_self).mp hletter
      have htake := h.writing.takeWhile_word hkind (h.maximal hkind).2
      rw [← htake, heq, h'.writing.takeWhile_word hkind' (h'.maximal hkind').2]
    · have hshort {lexeme : Lexeme} {tail : List Char} (hwriting : lexeme.Writing (c :: tail)) :
          tail = [] := by
        by_contra hlong
        have hlength : 1 < (c :: tail).length := by
          rw [List.length_cons]
          exact Nat.succ_lt_succ (List.length_pos_iff.mpr hlong)
        exact hletter (hwriting.isLetter_of_one_lt_length hlength c List.mem_cons_self)
      rw [hshort h.writing, hshort h'.writing]
  subst hpart
  have hlexeme := h.writing.unique h'.writing
  have hpos := h.pos_eq.trans h'.pos_eq.symm
  obtain ⟨lexeme, pos⟩ := token
  obtain ⟨lexeme', pos'⟩ := token'
  exact (Token.mk.injEq ..).mpr ⟨hlexeme, hpos⟩

/-- Tokens that meet are the same. -/
theorem StandsIn.eq_of_covers {cs : List Char} {token token' : Token} (h : token.StandsIn cs)
    (h' : token'.StandsIn cs) (hne : token.lexeme ≠ .eof) (hmeet : token'.Covers token.pos) :
    token = token' := by
  obtain ⟨front, part, back, rfl, hstands⟩ := h
  obtain ⟨front', part', back', hcs, hstands'⟩ := h'
  obtain ⟨c, tail, rfl⟩ := hstands.writing.exists_cons hne
  obtain ⟨hle, hlt⟩ := hmeet
  rw [← hstands'.writing.length_eq, hstands.pos_eq, hstands'.pos_eq] at hlt
  rw [hstands.pos_eq, hstands'.pos_eq] at hle
  obtain ⟨middle, rest, hrest, rfl, rfl, hback⟩ := exists_of_meeting hcs hle hlt
  -- A second token that begins earlier would be a word, and the first one a part of it.
  have hmiddle : middle = [] := by
    obtain ⟨d, rest, rfl⟩ := List.exists_cons_of_ne_nil hrest
    obtain ⟨rfl, -⟩ := List.cons.inj hback
    by_contra hlong
    obtain ⟨last, hlast⟩ := Option.ne_none_iff_exists'.mp (mt List.getLast?_eq_none_iff.mp hlong)
    have hlength : 1 < (middle ++ c :: rest).length := by
      have hpos := List.length_pos_iff.mpr hlong
      rw [List.length_append, List.length_cons]
      omega
    have hword := hstands'.writing.isLetter_of_one_lt_length hlength
    have hkind := (hstands.writing.isLetter_iff List.mem_cons_self).mp (hword c (by simp))
    have hstop := (hstands.maximal hkind).1 last (by simp [List.getLast?_append, hlast])
    have hletter := hword last (List.mem_append_left _ (List.mem_of_getLast? hlast))
    rw [hstop] at hletter
    cases hletter
  subst hmiddle
  rw [List.append_nil] at hstands
  exact hstands.eq hstands' (by simp) hrest hback

end Token

/-! ### Rows of tokens -/

/-- The tokens are those of the characters: they stand in order with the end of input behind them,
each is written in its place, and what none of them covers is blank. -/
structure IsTokenization (cs : List Char) (tokens : List Token) : Prop where
  terminated : ∃ body, tokens = body ++ [⟨.eof, cs.length⟩] ∧ ∀ token ∈ body, token.lexeme ≠ .eof
  increasing : tokens.Pairwise fun token later => token.pos < later.pos
  stands : ∀ token ∈ tokens, token.StandsIn cs
  covers : ∀ place c, cs[place]? = some c → Text.isBlank c = false →
    ∃ token ∈ tokens, token.Covers place

theorem IsTokenization.subset {cs : List Char} {tokens tokens' : List Token}
    (h : IsTokenization cs tokens) (h' : IsTokenization cs tokens') : tokens ⊆ tokens' := by
  intro token hmem
  have hstands := h.stands token hmem
  by_cases hend : token.lexeme = .eof
  · obtain ⟨lexeme, pos⟩ := token
    cases hend
    obtain ⟨body, rfl, -⟩ := h'.terminated
    rw [hstands.pos_of_eof]
    exact List.mem_append_right _ List.mem_cons_self
  · obtain ⟨c, hc, hblank⟩ := hstands.exists_getElem? hend
    obtain ⟨token', hmem', hcovers⟩ := h'.covers token.pos c hc hblank
    rw [hstands.eq_of_covers (h'.stands token' hmem') hend hcovers]
    exact hmem'

theorem IsTokenization.unique {cs : List Char} {tokens tokens' : List Token}
    (h : IsTokenization cs tokens) (h' : IsTokenization cs tokens') : tokens = tokens' := by
  have hirrefl : Std.Irrefl fun token later : Token => token.pos < later.pos :=
    ⟨fun token => Nat.lt_irrefl token.pos⟩
  have hantisymm : Std.Antisymm fun token later : Token => token.pos < later.pos :=
    ⟨fun token later hlt hgt => absurd hgt (Nat.lt_asymm hlt)⟩
  exact (h.subset h').antisymm_of_pairwise h.increasing h'.increasing (h'.subset h)

theorem IsTokenization.eq_of_pos_eq {cs : List Char} {tokens : List Token}
    (h : IsTokenization cs tokens) {token token' : Token} (hmem : token ∈ tokens)
    (hmem' : token' ∈ tokens) (hpos : token.pos = token'.pos) : token = token' := by
  by_contra hne
  have hsymm : Std.Symm fun token token' : Token => token.pos ≠ token'.pos :=
    ⟨fun token token' => Ne.symm⟩
  have hdistinct : tokens.Pairwise fun token token' => token.pos ≠ token'.pos :=
    h.increasing.imp Nat.ne_of_lt
  exact hdistinct.forall hmem hmem' hne hpos

theorem IsTokenization.isBlank_of_lt {cs : List Char} {token : Token} {later : List Token}
    (h : IsTokenization cs (token :: later)) {place : Nat} (hlt : place < token.pos) {c : Char}
    (hc : cs[place]? = some c) : Text.isBlank c = true := by
  by_contra hblank
  obtain ⟨token', hmem, hle, -⟩ := h.covers place c hc (Bool.eq_false_iff.mpr hblank)
  rcases List.mem_cons.mp hmem with rfl | hmem
  · omega
  · have hafter := (List.pairwise_cons.mp h.increasing).1 token' hmem
    omega

/-! ### What the lexer gives -/

namespace Token

variable {pos : Nat} {cs : List Char} {tokens : List Token}

theorem Cuts.le_pos (h : Cuts pos cs tokens) : ∀ token ∈ tokens, pos ≤ token.pos := by
  induction h with
  | nil pos => simp
  | blank hblank _ ih => exact fun token hmem => Nat.le_of_succ_le (ih token hmem)
  | mark hmark _ ih =>
    intro token hmem
    rcases List.mem_cons.mp hmem with rfl | hmem
    · exact Nat.le_refl _
    · exact Nat.le_of_succ_le (ih token hmem)
  | word hword hstop _ ih =>
    intro token hmem
    rcases List.mem_cons.mp hmem with rfl | hmem
    · exact Nat.le_refl _
    · exact Nat.le_of_add_right_le (ih token hmem)

theorem Cuts.increasing (h : Cuts pos cs tokens) :
    tokens.Pairwise fun token later => token.pos < later.pos := by
  induction h with
  | nil pos => exact List.pairwise_singleton _ _
  | blank hblank _ ih => exact ih
  | mark hmark hrest ih =>
    exact List.pairwise_cons.mpr ⟨fun token hmem => hrest.le_pos token hmem, ih⟩
  | @word pos name cs tokens hword hstop hrest ih =>
    refine List.pairwise_cons.mpr ⟨?_, ih⟩
    intro token hmem
    have hlength := List.length_pos_iff.mpr (toList_ne_nil_of_isWord hword)
    exact Nat.lt_of_lt_of_le (Nat.lt_add_of_pos_right hlength) (hrest.le_pos token hmem)

theorem Cuts.covers (h : Cuts pos cs tokens) {place : Nat} {c : Char} (hc : cs[place]? = some c)
    (hblank : Text.isBlank c = false) : ∃ token ∈ tokens, token.Covers (pos + place) := by
  induction h generalizing place with
  | nil pos => cases hc
  | blank hskipped _ ih =>
    cases place with
    | zero =>
      cases hc
      cases hskipped.symm.trans hblank
    | succ place =>
      obtain ⟨token, hmem, hcovers⟩ := ih hc
      rw [Nat.succ_add_eq_add_succ] at hcovers
      exact ⟨token, hmem, hcovers⟩
  | mark hmark _ ih =>
    cases place with
    | zero =>
      have hsize := (Lexeme.Writing.mark hmark).length_eq
      refine ⟨_, List.mem_cons_self, Nat.le_refl _, ?_⟩
      rw [← hsize]
      exact Nat.lt_succ_self _
    | succ place =>
      obtain ⟨token, hmem, hcovers⟩ := ih hc
      rw [Nat.succ_add_eq_add_succ] at hcovers
      exact ⟨token, List.mem_cons_of_mem _ hmem, hcovers⟩
  | @word pos name cs tokens hword hstop _ ih =>
    by_cases hinside : place < name.toList.length
    · have hsize := (Lexeme.Writing.word hword).length_eq
      refine ⟨_, List.mem_cons_self, Nat.le_add_right _ _, Nat.add_lt_add_left ?_ _⟩
      rw [← hsize]
      exact hinside
    · have hle := Nat.le_of_not_lt hinside
      rw [List.getElem?_append_right hle] at hc
      obtain ⟨token, hmem, hcovers⟩ := ih hc
      rw [Nat.add_assoc, Nat.add_sub_cancel' hle] at hcovers
      exact ⟨token, List.mem_cons_of_mem _ hmem, hcovers⟩

/-- Every token stands in the whole line, if what was cut before does not end inside a word. -/
theorem Cuts.standsIn (before : List Char) (h : Cuts before.length cs tokens)
    (hbefore : NoLetter cs ∨ ∀ c ∈ before.getLast?, isLetter c = false) :
    ∀ token ∈ tokens, token.StandsIn (before ++ cs) := by
  generalize hpos : before.length = pos at h
  induction h generalizing before with
  | nil pos =>
    subst hpos
    intro token hmem
    cases List.mem_singleton.mp hmem
    refine ⟨before, [], [], by simp, rfl, .eof, ?_, fun _ => rfl⟩
    intro hkind
    cases hkind
  | @blank pos c cs tokens hblank _ ih =>
    subst hpos
    have hlater := ih (before ++ [c]) (.inr ?_) (by simp)
    · rwa [List.append_assoc] at hlater
    · rw [List.getLast?_concat]
      rintro _ ⟨⟩
      exact isLetter_eq_false_of_isBlank hblank
  | @mark pos c cs lexeme tokens hmark _ ih =>
    subst hpos
    have hlater := ih (before ++ [c]) (.inr ?_) (by simp)
    · rw [List.append_assoc] at hlater
      refine List.forall_mem_cons.mpr ⟨?_, hlater⟩
      refine ⟨before, [c], cs, by simp, rfl, .mark hmark, ?_, ?_⟩
      · exact fun hkind => absurd hkind (Lexeme.kind_ne_of_mem_marks hmark)
      · rintro rfl
        cases hmark
    · rw [List.getLast?_concat]
      rintro _ ⟨⟩
      exact (plain_of_mem_marks hmark).2
  | @word pos name cs tokens hword hstop _ ih =>
    subst hpos
    have hlater := ih (before ++ name.toList) (.inl hstop) (by simp)
    rw [List.append_assoc] at hlater
    refine List.forall_mem_cons.mpr ⟨?_, hlater⟩
    refine ⟨before, name.toList, cs, by simp, rfl, .word hword, fun _ => ⟨?_, hstop⟩, ?_⟩
    · rcases hbefore with hnone | hlast
      · obtain ⟨c, tail, hchars⟩ := List.exists_cons_of_ne_nil (toList_ne_nil_of_isWord hword)
        have hletter := (isWord_iff.mp hword).2 c (by simp [hchars])
        rw [hnone c (by simp [hchars])] at hletter
        cases hletter
      · exact hlast
    · rintro ⟨⟩

end Token

theorem isTokenization_of_tokenize {expr : String} {tokens : List Token}
    (h : tokenize expr = .ok tokens) : IsTokenization expr.toList tokens := by
  have hcuts := cuts_of_tokenize h
  obtain ⟨body, rfl, hbody⟩ := tokenize_eq_ok h
  refine ⟨⟨body, ?_, fun token hmem => (hbody token hmem).1⟩, hcuts.increasing, ?_, ?_⟩
  · rw [String.length_toList]
  · exact Token.Cuts.standsIn [] hcuts (.inr (by simp))
  · intro place c hc hblank
    simpa using hcuts.covers hc hblank

theorem IsTokenization.isRecognized {cs : List Char} {tokens : List Token}
    (h : IsTokenization cs tokens) : ∀ c ∈ cs, Token.isRecognized c = true := by
  intro c hmem
  obtain ⟨place, hc⟩ := List.getElem?_of_mem hmem
  cases hblank : Text.isBlank c with
  | true => exact Token.isRecognized_iff.mpr (.inl hblank)
  | false =>
    obtain ⟨token, htoken, hcovers⟩ := h.covers place c hc hblank
    exact (h.stands token htoken).isRecognized hcovers hc

theorem exists_tokenize_iff {expr : String} :
    (∃ tokens, tokenize expr = .ok tokens) ↔ ∀ c ∈ expr.toList, Token.isRecognized c = true := by
  constructor
  · rintro ⟨tokens, h⟩
    exact (isTokenization_of_tokenize h).isRecognized
  · intro hall
    cases htokens : tokenize expr with
    | ok tokens => exact ⟨tokens, rfl⟩
    | error fault =>
      obtain ⟨front, c, back, hexpr, -, hc, -⟩ := exists_unrecognized_of_tokenize htokens
      rw [hall c (by simp [hexpr])] at hc
      cases hc

theorem tokenize_of_unrecognized {expr : String} {front back : List Char} {c : Char}
    (hexpr : expr.toList = front ++ c :: back)
    (hfront : ∀ d ∈ front, Token.isRecognized d = true) (hc : Token.isRecognized c = false) :
    tokenize expr = .error (.diagnostic (.unrecognized expr c front.length)) := by
  cases htokens : tokenize expr with
  | ok tokens =>
    rw [(isTokenization_of_tokenize htokens).isRecognized c (by simp [hexpr])] at hc
    cases hc
  | error fault =>
    obtain ⟨front', c', back', hexpr', hfront', hc', rfl⟩ := exists_unrecognized_of_tokenize htokens
    have hboth := congrArg (List.takeWhile Token.isRecognized) (hexpr.symm.trans hexpr')
    rw [List.takeWhile_append_of_pos hfront, List.takeWhile_append_of_pos hfront',
      List.takeWhile_cons_of_neg (by simp [hc]), List.takeWhile_cons_of_neg (by simp [hc']),
      List.append_nil, List.append_nil] at hboth
    subst hboth
    obtain ⟨rfl, -⟩ := List.cons.inj (List.append_cancel_left (hexpr.symm.trans hexpr'))
    rfl

/-- **Cutting a line is exact and loses nothing.** A line is cut just when it consists of blanks,
letters and marks, and the first other character is blamed. The tokens that it is cut into are the
only ones that stand in the line, in order and with the end of input behind them, so that what they
do not cover is blank. -/
theorem tokenize_lossless (expr : String) :
    ((∃ tokens, tokenize expr = .ok tokens) ↔
      ∀ c ∈ expr.toList, Token.isRecognized c = true) ∧
    (∀ front c back, expr.toList = front ++ c :: back →
      (∀ d ∈ front, Token.isRecognized d = true) → Token.isRecognized c = false →
      ∃ d : Diagnostic, tokenize expr = .error (.diagnostic d) ∧ d.kind = .unrecognized ∧
        d.start = front.length ∧ d.stop = front.length + 1 ∧
        d.message = .ofPieces [.text "'", .snippet expr,
          .text "' contains unrecognized character '", .snippet (String.singleton c), .text "'"]) ∧
    ∀ tokens, tokenize expr = .ok tokens ↔ IsTokenization expr.toList tokens := by
  refine ⟨exists_tokenize_iff, ?_, ?_⟩
  · intro front c back hexpr hfront hc
    exact ⟨_, tokenize_of_unrecognized hexpr hfront hc, rfl, rfl, rfl, rfl⟩
  · intro tokens
    constructor
    · exact isTokenization_of_tokenize
    · intro h
      obtain ⟨tokens', htokens'⟩ := exists_tokenize_iff.mpr h.isRecognized
      rw [h.unique (isTokenization_of_tokenize htokens')]
      exact htokens'

/-- A no-break space is a blank, a mark ends a word as well, and a zero width space belongs to no
token. -/
theorem tokenize_lossless_marked :
    IsTokenization "λxy\u00a0.xy=".toList
      [⟨.lambda, 0⟩, ⟨.ident "xy", 1⟩, ⟨.dot, 4⟩, ⟨.ident "xy", 5⟩, ⟨.equal, 7⟩, ⟨.eof, 8⟩] ∧
    ∃ d : Diagnostic, tokenize "f \u200bx" = .error (.diagnostic d) ∧ d.kind = .unrecognized ∧
      d.start = 2 ∧ d.stop = 3 ∧
      d.message = .ofPieces [.text "'", .snippet "f \u200bx",
        .text "' contains unrecognized character '", .snippet "\u200b", .text "'"] := by
  constructor
  · exact ((tokenize_lossless "λxy\u00a0.xy=").2.2 _).mp (by decide +kernel)
  · exact (tokenize_lossless "f \u200bx").2.1 ['f', ' '] '\u200b' ['x'] (by decide)
      (List.all_eq_true.mp (by decide)) (by decide)

end CallByValue
