import CallByValue.Proofs.Diagnostic
import CallByValue.Token.Lexer
import Mathlib.Data.List.Infix
import Mathlib.Data.List.TakeWhile
/-!
# What the lexer gives

Two views of cutting a line into tokens. From the line to the tokens: a successful cut goes by four
rules, `Cuts`. It ends in the only end-of-input token, and every identifier in it is a word that
stands in the line. A line that cannot be cut is blamed for its first character that belongs to no
token. From the tokens to the line: `Spells` says that some characters are cut into given lexemes
whatever follows them, as long as no letter follows, and pieces of that kind can be put one after
another. A letter must not follow because it would make a last identifier longer.
-/

namespace CallByValue

/-! ### Characters -/

namespace Lexeme

/-- The characters that a lexeme of one character is written with. -/
def marks : Lexeme → List Char
  | .lambda => ['\\', 'λ']
  | .dot => ['.']
  | .equal => ['=']
  | .lparen => ['(']
  | .rparen => [')']
  | .ident _ => []
  | .eof => []

theorem kind_ne_of_mem_marks {lexeme : Lexeme} {c : Char} (h : c ∈ lexeme.marks) :
    lexeme.kind ≠ .ident := by
  intro hkind
  cases lexeme with
  | ident name => cases h
  | _ => cases hkind

end Lexeme

namespace Token

theorem punctuation?_eq_some_iff {c : Char} {lexeme : Lexeme} :
    punctuation? c = some lexeme ↔ c ∈ lexeme.marks := by
  unfold punctuation?
  split <;> cases lexeme <;> simp_all [Lexeme.marks]

theorem plain_of_mem_marks {c : Char} {lexeme : Lexeme} (h : c ∈ lexeme.marks) :
    Text.isBlank c = false ∧ isLetter c = false := by
  cases lexeme <;> simp only [Lexeme.marks, List.mem_cons, List.not_mem_nil, or_false] at h
  case lambda => rcases h with rfl | rfl <;> exact ⟨rfl, rfl⟩
  all_goals subst h; exact ⟨rfl, rfl⟩

def isRecognized (c : Char) : Bool :=
  Text.isBlank c || isLetter c || ['\\', 'λ', '.', '=', '(', ')'].contains c

theorem isRecognized_iff {c : Char} :
    isRecognized c = true ↔
      Text.isBlank c = true ∨ isLetter c = true ∨ ∃ lexeme : Lexeme, c ∈ lexeme.marks := by
  have hmarks : ['\\', 'λ', '.', '=', '(', ')'].contains c = true ↔
      ∃ lexeme : Lexeme, c ∈ lexeme.marks := by
    constructor
    · intro h
      obtain ⟨lexeme, hlexeme⟩ : ∃ lexeme, punctuation? c = some lexeme := by
        simp only [List.contains_eq_mem, List.mem_cons, List.not_mem_nil, or_false,
          decide_eq_true_eq] at h
        rcases h with rfl | rfl | rfl | rfl | rfl | rfl <;> exact ⟨_, rfl⟩
      exact ⟨lexeme, punctuation?_eq_some_iff.mp hlexeme⟩
    · rintro ⟨lexeme, h⟩
      cases lexeme <;> simp [Lexeme.marks] at h ⊢ <;> tauto
  rw [isRecognized, Bool.or_eq_true, Bool.or_eq_true, hmarks, or_assoc]

/-! ### Words -/

theorem isWord_iff {s : String} : isWord s = true ↔ s ≠ "" ∧ ∀ c ∈ s.toList, isLetter c = true := by
  simp [isWord]

theorem isLetter_iff_toNat {c : Char} :
    isLetter c = true ↔ 97 ≤ c.toNat ∧ c.toNat ≤ 122 ∨ 65 ≤ c.toNat ∧ c.toNat ≤ 90 := by
  simp only [isLetter, Char.le_def, UInt32.le_iff_toNat_le, Bool.or_eq_true, Bool.and_eq_true,
    decide_eq_true_eq]
  rfl

theorem isLetter_eq_false_of_isBlank {c : Char} (h : Text.isBlank c = true) :
    isLetter c = false := by
  rw [Bool.eq_false_iff]
  intro hletter
  rw [isLetter_iff_toNat] at hletter
  simp only [Text.isBlank, Bool.or_eq_true, Bool.and_eq_true, decide_eq_true_eq, beq_iff_eq] at h
  omega

theorem isBlank_eq_false_of_isLetter {c : Char} (h : isLetter c = true) :
    Text.isBlank c = false := by
  rw [Bool.eq_false_iff]
  intro hblank
  rw [isLetter_eq_false_of_isBlank hblank] at h
  cases h

theorem toList_ne_nil_of_isWord {name : String} (h : isWord name = true) : name.toList ≠ [] := by
  rw [ne_eq, String.toList_eq_nil_iff]
  exact (isWord_iff.mp h).1

theorem toList_ne_mark {name : String} (h : isWord name = true) {lexeme : Lexeme} {c : Char}
    (hmark : c ∈ lexeme.marks) : name.toList ≠ [c] := by
  intro hname
  have hletter := (isWord_iff.mp h).2 c (by simp [hname])
  rw [(plain_of_mem_marks hmark).2] at hletter
  cases hletter

/-- Characters that cannot make a word before them longer. -/
def NoLetter (cs : List Char) : Prop :=
  ∀ c ∈ cs.head?, isLetter c = false

/-! ### From the line to the tokens -/

theorem isWord_ofList_cons {c : Char} {cs : List Char} (hc : isLetter c = true)
    (hcs : ∀ d ∈ cs, isLetter d = true) : isWord (String.ofList (c :: cs)) = true := by
  rw [isWord_iff]
  constructor
  · intro hempty
    have hlist := congrArg String.toList hempty
    simp at hlist
  · simpa using ⟨hc, hcs⟩

/-- The characters from `pos` on are cut into the tokens. -/
inductive Cuts : (pos : Nat) → List Char → List Token → Prop where
  | nil (pos : Nat) : Cuts pos [] [⟨.eof, pos⟩]
  | blank {pos : Nat} {c : Char} {cs : List Char} {tokens : List Token}
      (hblank : Text.isBlank c = true) (hrest : Cuts (pos + 1) cs tokens) :
      Cuts pos (c :: cs) tokens
  | mark {pos : Nat} {c : Char} {cs : List Char} {lexeme : Lexeme} {tokens : List Token}
      (hmark : c ∈ lexeme.marks) (hrest : Cuts (pos + 1) cs tokens) :
      Cuts pos (c :: cs) (⟨lexeme, pos⟩ :: tokens)
  | word {pos : Nat} {name : String} {cs : List Char} {tokens : List Token}
      (hword : isWord name = true) (hstop : NoLetter cs)
      (hrest : Cuts (pos + name.toList.length) cs tokens) :
      Cuts pos (name.toList ++ cs) (⟨.ident name, pos⟩ :: tokens)

theorem noLetter_dropWhile (cs : List Char) : NoLetter (cs.dropWhile isLetter) := by
  intro c hc
  have hstop := List.head?_dropWhile_not isLetter cs
  rw [hc] at hstop
  simpa using hstop

theorem cuts_of_scan {pos : Nat} {cs : List Char} {tokens : List Token}
    (h : scan pos cs = .ok tokens) : Cuts pos cs tokens := by
  fun_induction scan pos cs generalizing tokens with
  | case1 pos =>
    cases h
    exact .nil pos
  | case2 pos c cs hblank ih => exact .blank hblank (ih h)
  | case3 pos c cs hblank hletter tail tokens' hscan =>
    rename_i ih
    cases h
    have htail : ∀ d ∈ tail, isLetter d = true := fun d hd => List.mem_takeWhile_imp hd
    have hchars : (String.ofList (c :: tail)).toList ++ cs.dropWhile isLetter = c :: cs := by
      rw [String.toList_ofList, List.cons_append, List.takeWhile_append_dropWhile]
    have hend : pos + (String.ofList (c :: tail)).toList.length = pos + 1 + tail.length := by
      rw [String.toList_ofList, List.length_cons]
      omega
    rw [← hchars]
    refine .word (isWord_ofList_cons hletter htail) (noLetter_dropWhile cs) ?_
    rw [hend]
    exact ih hscan
  | case4 => cases h
  | case5 pos c cs hblank hletter lexeme hlexeme tokens' hscan ih =>
    cases h
    exact .mark (punctuation?_eq_some_iff.mp hlexeme) (ih hscan)
  | case6 => cases h
  | case7 => cases h

/-- A token that can stand before the end of input in the tokens of `cs`. -/
def IsFrom (cs : List Char) (token : Token) : Prop :=
  token.lexeme ≠ .eof ∧
    ∀ name, token.lexeme = .ident name → isWord name = true ∧ name.toList <:+: cs

theorem IsFrom.mono {cs ds : List Char} {token : Token} (h : token.IsFrom cs) (hpart : cs <:+: ds) :
    token.IsFrom ds :=
  ⟨h.1, fun name hname => ⟨(h.2 name hname).1, (h.2 name hname).2.trans hpart⟩⟩

/-- The token ends before `stop`, or is the end of input there. -/
def EndsBy (stop : Nat) (token : Token) : Prop :=
  token.pos ≤ stop ∧ token.pos + token.lexeme.width ≤ stop + 1

variable {pos : Nat} {cs : List Char} {tokens : List Token}

theorem Cuts.exists_body (h : Cuts pos cs tokens) :
    ∃ body, tokens = body ++ [⟨.eof, pos + cs.length⟩] ∧ ∀ token ∈ body, token.IsFrom cs := by
  induction h with
  | nil pos => exact ⟨[], rfl, by simp⟩
  | @blank pos c cs tokens hblank _ ih =>
    obtain ⟨body, rfl, hbody⟩ := ih
    refine ⟨body, ?_, fun token hmem => (hbody token hmem).mono (List.suffix_cons c cs).isInfix⟩
    rw [List.length_cons, Nat.add_assoc, Nat.add_comm 1]
  | @mark pos c cs lexeme tokens hmark _ ih =>
    obtain ⟨body, rfl, hbody⟩ := ih
    refine ⟨⟨lexeme, pos⟩ :: body, ?_, List.forall_mem_cons.mpr ⟨?_, ?_⟩⟩
    · rw [List.cons_append, List.length_cons, Nat.add_assoc, Nat.add_comm 1]
    · constructor
      · rintro rfl
        cases hmark
      · rintro name rfl
        cases hmark
    · exact fun token hmem => (hbody token hmem).mono (List.suffix_cons c cs).isInfix
  | @word pos name cs tokens hword _ _ ih =>
    obtain ⟨body, rfl, hbody⟩ := ih
    refine ⟨⟨.ident name, pos⟩ :: body, ?_, List.forall_mem_cons.mpr ⟨?_, ?_⟩⟩
    · rw [List.cons_append, List.length_append, Nat.add_assoc]
    · refine ⟨by simp, ?_⟩
      rintro other ⟨⟩
      exact ⟨hword, (List.prefix_append _ _).isInfix⟩
    · exact fun token hmem => (hbody token hmem).mono (List.suffix_append _ _).isInfix

theorem Cuts.endsBy (h : Cuts pos cs tokens) :
    ∀ token ∈ tokens, token.EndsBy (pos + cs.length) := by
  induction h with
  | nil pos => simp [EndsBy, Lexeme.width]
  | @blank pos c cs tokens hblank _ ih =>
    rw [List.length_cons, Nat.add_comm cs.length, ← Nat.add_assoc]
    exact ih
  | @mark pos c cs lexeme tokens hmark _ ih =>
    rw [List.length_cons, Nat.add_comm cs.length, ← Nat.add_assoc]
    refine List.forall_mem_cons.mpr ⟨?_, ih⟩
    have hwidth : lexeme.width = 1 := by
      cases lexeme with
      | ident name => cases hmark
      | _ => rfl
    simp only [EndsBy, hwidth]
    omega
  | @word pos name cs tokens hword _ _ ih =>
    rw [List.length_append, ← Nat.add_assoc]
    refine List.forall_mem_cons.mpr ⟨?_, ih⟩
    have hlength := List.length_pos_iff.mpr (toList_ne_nil_of_isWord hword)
    simp only [EndsBy, Lexeme.width, ← String.length_toList]
    omega

theorem scan_eq_error {pos : Nat} {cs : List Char} {fault : Unrecognized}
    (h : scan pos cs = .error fault) :
    ∃ front back, cs = front ++ fault.char :: back ∧ fault.pos = pos + front.length ∧
      (∀ c ∈ front, isRecognized c = true) ∧ isRecognized fault.char = false := by
  fun_induction scan pos cs with
  | case1 => cases h
  | case2 pos c cs hblank ih =>
    obtain ⟨front, back, rfl, hpos, hfront, hchar⟩ := ih h
    refine ⟨c :: front, back, rfl, ?_, ?_, hchar⟩
    · rw [hpos, List.length_cons]
      omega
    · exact List.forall_mem_cons.mpr ⟨isRecognized_iff.mpr (.inl hblank), hfront⟩
  | case3 => cases h
  | case4 pos c cs hblank hletter tail fault' hscan ih =>
    cases h
    obtain ⟨front, back, hrest, hpos, hfront, hchar⟩ := ih hscan
    refine ⟨c :: tail ++ front, back, ?_, ?_, ?_, hchar⟩
    · rw [List.append_assoc, ← hrest, List.cons_append, List.takeWhile_append_dropWhile]
    · rw [hpos, List.length_append, List.length_cons]
      omega
    · have hletters : ∀ d ∈ c :: tail, isLetter d = true :=
        List.forall_mem_cons.mpr ⟨hletter, fun d hd => List.mem_takeWhile_imp hd⟩
      refine List.forall_mem_append.mpr ⟨?_, hfront⟩
      exact fun d hd => isRecognized_iff.mpr (.inr (.inl (hletters d hd)))
  | case5 => cases h
  | case6 pos c cs hblank hletter lexeme hlexeme fault' hscan ih =>
    cases h
    obtain ⟨front, back, rfl, hpos, hfront, hchar⟩ := ih hscan
    refine ⟨c :: front, back, rfl, ?_, ?_, hchar⟩
    · rw [hpos, List.length_cons]
      omega
    · have hmark := punctuation?_eq_some_iff.mp hlexeme
      exact List.forall_mem_cons.mpr ⟨isRecognized_iff.mpr (.inr (.inr ⟨_, hmark⟩)), hfront⟩
  | case7 pos c cs hblank hletter hnone =>
    cases h
    refine ⟨[], cs, rfl, rfl, by simp, ?_⟩
    rw [Bool.eq_false_iff, ne_eq, isRecognized_iff]
    rintro (h | h | ⟨lexeme, h⟩)
    · exact hblank h
    · exact hletter h
    · cases hnone.symm.trans (punctuation?_eq_some_iff.mpr h)

/-! ### From the tokens to the line -/

theorem NoLetter.cons {c : Char} (h : isLetter c = false) (cs : List Char) :
    NoLetter (c :: cs) := by
  intro d hd
  cases hd
  exact h

theorem NoLetter.append {cs ds : List Char} (hcs : NoLetter cs) (hds : NoLetter ds) :
    NoLetter (cs ++ ds) := by
  intro c hc
  rw [List.head?_append] at hc
  cases cs with
  | nil => exact hds c hc
  | cons d cs => exact hcs c hc

theorem scan_nil (pos : Nat) : scan pos [] = .ok [⟨.eof, pos⟩] := by
  rw [scan.eq_def]

theorem scan_blank {c : Char} (h : Text.isBlank c = true) (pos : Nat) (cs : List Char) :
    scan pos (c :: cs) = scan (pos + 1) cs := by
  rw [scan.eq_def]
  dsimp only
  rw [if_pos h]

theorem scan_punctuation {c : Char} {lexeme : Lexeme} (h : punctuation? c = some lexeme) (pos : Nat)
    (cs : List Char) :
    scan pos (c :: cs) = (scan (pos + 1) cs).map (⟨lexeme, pos⟩ :: ·) := by
  obtain ⟨hblank, hletter⟩ := plain_of_mem_marks (punctuation?_eq_some_iff.mp h)
  rw [scan.eq_def]
  dsimp only
  rw [if_neg (by simp [hblank]), if_neg (by simp [hletter]), h]
  cases scan (pos + 1) cs <;> rfl

theorem scan_word {word : String} (hword : isWord word = true) {rest : List Char}
    (hrest : NoLetter rest) (pos : Nat) :
    scan pos (word.toList ++ rest)
      = (scan (pos + word.toList.length) rest).map (⟨.ident word, pos⟩ :: ·) := by
  obtain ⟨hne, hletters⟩ := isWord_iff.mp hword
  cases hchars : word.toList with
  | nil => exact absurd (String.toList_eq_nil_iff.mp hchars) hne
  | cons c tail =>
    rw [hchars] at hletters
    have hletter : isLetter c = true := hletters c (by simp)
    have htail : ∀ d ∈ tail, isLetter d = true := fun d hd => hletters d (by simp [hd])
    have hblank := isBlank_eq_false_of_isLetter hletter
    have hstop : rest.takeWhile isLetter = [] ∧ rest.dropWhile isLetter = rest := by
      cases rest with
      | nil => exact ⟨rfl, rfl⟩
      | cons d rest => simp [hrest d rfl]
    have hname : String.ofList (c :: tail) = word := by
      rw [← hchars, String.ofList_toList]
    have hend : pos + 1 + tail.length = pos + (c :: tail).length := by
      rw [List.length_cons]
      omega
    rw [List.cons_append, scan.eq_def]
    dsimp only
    rw [if_neg (by simp [hblank]), if_pos hletter]
    simp only [List.takeWhile_append_of_pos htail, List.dropWhile_append_of_pos htail, hstop,
      List.append_nil, hname, hend]
    cases scan (pos + (c :: tail).length) rest <;> rfl

/-! ### Characters further on -/

@[simp] theorem lexeme_moved (distance : Nat) (token : Token) :
    (token.moved distance).lexeme = token.lexeme :=
  rfl

/-- The same character, found `distance` characters further on. -/
def Unrecognized.moved (distance : Nat) (fault : Unrecognized) : Unrecognized :=
  { fault with pos := fault.pos + distance }

theorem scan_moved (distance pos : Nat) (cs : List Char) :
    scan (pos + distance) cs
      = ((scan pos cs).map (List.map (moved distance))).mapError (·.moved distance) := by
  fun_induction scan pos cs with
  | case1 pos =>
    rw [scan_nil]
    rfl
  | case2 pos c cs hblank ih => rw [scan_blank hblank, Nat.add_right_comm, ih]
  | case3 pos c cs hblank hletter tail tokens hscan ih =>
    have hstart : pos + distance + 1 + tail.length = pos + 1 + tail.length + distance := by omega
    rw [scan.eq_def]
    dsimp only
    rw [if_neg hblank, if_pos hletter, hstart, ih, hscan]
    rfl
  | case4 pos c cs hblank hletter tail fault hscan ih =>
    have hstart : pos + distance + 1 + tail.length = pos + 1 + tail.length + distance := by omega
    rw [scan.eq_def]
    dsimp only
    rw [if_neg hblank, if_pos hletter, hstart, ih, hscan]
    rfl
  | case5 pos c cs hblank hletter lexeme hlexeme tokens hscan ih =>
    rw [scan_punctuation hlexeme, Nat.add_right_comm, ih, hscan]
    rfl
  | case6 pos c cs hblank hletter lexeme hlexeme fault hscan ih =>
    rw [scan_punctuation hlexeme, Nat.add_right_comm, ih, hscan]
    rfl
  | case7 pos c cs hblank hletter hnone =>
    rw [scan.eq_def]
    dsimp only
    rw [if_neg hblank, if_neg hletter, hnone]
    rfl

/-! ### Pieces of a line -/

/-- The characters are cut into the lexemes in front of everything that does not start with a
letter, and what follows is cut as if it stood alone. -/
def Spells (cs : List Char) (lexemes : List Lexeme) : Prop :=
  ∀ pos rest, NoLetter rest →
    ∃ tokens : List Token, tokens.map lexeme = lexemes ∧
      scan pos (cs ++ rest) = (scan (pos + cs.length) rest).map (tokens ++ ·)

theorem Spells.nil : Spells [] [] := by
  intro pos rest _
  refine ⟨[], rfl, ?_⟩
  cases hscan : scan pos rest <;> simp [hscan, Except.map]

theorem Spells.word {word : String} (hword : isWord word = true) :
    Spells word.toList [.ident word] :=
  fun pos _ hrest => ⟨[⟨.ident word, pos⟩], rfl, scan_word hword hrest pos⟩

theorem Spells.blank {c : Char} (hblank : Text.isBlank c = true) {cs : List Char}
    {lexemes : List Lexeme} (h : Spells cs lexemes) : Spells (c :: cs) lexemes := by
  intro pos rest hrest
  obtain ⟨tokens, hlexemes, hscan⟩ := h (pos + 1) rest hrest
  refine ⟨tokens, hlexemes, ?_⟩
  rw [List.cons_append, scan_blank hblank, hscan, List.length_cons, Nat.add_right_comm,
    Nat.add_assoc]

theorem Spells.punctuation {c : Char} {lexeme : Lexeme} (hlexeme : punctuation? c = some lexeme)
    {cs : List Char} {lexemes : List Lexeme} (h : Spells cs lexemes) :
    Spells (c :: cs) (lexeme :: lexemes) := by
  intro pos rest hrest
  obtain ⟨tokens, rfl, hscan⟩ := h (pos + 1) rest hrest
  refine ⟨⟨lexeme, pos⟩ :: tokens, rfl, ?_⟩
  rw [List.cons_append, scan_punctuation hlexeme, hscan, List.length_cons, Nat.add_right_comm,
    Nat.add_assoc]
  cases scan (pos + (cs.length + 1)) rest <;> rfl

theorem Spells.append {cs ds : List Char} {front back : List Lexeme} (hcs : Spells cs front)
    (hds : Spells ds back) (hletter : NoLetter ds) : Spells (cs ++ ds) (front ++ back) := by
  intro pos rest hrest
  obtain ⟨tokens, rfl, hscan⟩ := hds (pos + cs.length) rest hrest
  obtain ⟨tokens', rfl, hscan'⟩ := hcs pos (ds ++ rest) (hletter.append hrest)
  refine ⟨tokens' ++ tokens, List.map_append, ?_⟩
  rw [List.append_assoc, hscan', hscan, List.length_append, Nat.add_assoc]
  cases scan (pos + (cs.length + ds.length)) rest with
  | ok later => simp [Except.map]
  | error fault => rfl

theorem Spells.blanks {front : List Char} (hfront : ∀ c ∈ front, Text.isBlank c = true)
    {cs : List Char} {lexemes : List Lexeme} (h : Spells cs lexemes) :
    Spells (front ++ cs) lexemes := by
  induction front with
  | nil => exact h
  | cons c front ih =>
    exact .blank (hfront c List.mem_cons_self) (ih fun d hd => hfront d (List.mem_cons_of_mem _ hd))

theorem Cuts.ne_nil (h : Cuts pos cs tokens) : tokens ≠ [] := by
  obtain ⟨body, rfl, -⟩ := h.exists_body
  simp

/-- What is cut into tokens spells their lexemes, up to the end of input. -/
theorem Cuts.spells (h : Cuts pos cs tokens) : Spells cs (tokens.map lexeme).dropLast := by
  induction h with
  | nil pos => exact .nil
  | blank hblank _ ih => exact .blank hblank ih
  | mark hmark hrest ih =>
    rw [List.map_cons, List.dropLast_cons_of_ne_nil (by simpa using hrest.ne_nil)]
    exact ih.punctuation (punctuation?_eq_some_iff.mpr hmark)
  | word hword hstop hrest ih =>
    rw [List.map_cons, List.dropLast_cons_of_ne_nil (by simpa using hrest.ne_nil)]
    exact (Spells.word hword).append ih hstop

end Token

theorem cuts_of_tokenize {expr : String} {tokens : List Token} (h : tokenize expr = .ok tokens) :
    Token.Cuts 0 expr.toList tokens := by
  unfold tokenize at h
  split at h
  · next hscan =>
    cases h
    exact Token.cuts_of_scan hscan
  · cases h

theorem tokenize_eq_ok {expr : String} {tokens : List Token} (h : tokenize expr = .ok tokens) :
    ∃ body, tokens = body ++ [⟨.eof, expr.length⟩] ∧
      ∀ token ∈ body, token.IsFrom expr.toList := by
  simpa only [Nat.zero_add, String.length_toList] using (cuts_of_tokenize h).exists_body

theorem tokenize_of_spells {expr : String} {lexemes : List Lexeme}
    (h : Token.Spells expr.toList lexemes) :
    ∃ body, tokenize expr = .ok (body ++ [⟨.eof, expr.length⟩]) ∧
      body.map Token.lexeme = lexemes := by
  obtain ⟨body, hlexemes, hscan⟩ := h 0 [] (by simp [Token.NoLetter])
  refine ⟨body, ?_, hlexemes⟩
  rw [List.append_nil, Token.scan_nil, Nat.zero_add, String.length_toList] at hscan
  rw [tokenize, hscan]
  rfl

theorem tokenize_endsBy {expr : String} {tokens : List Token} (h : tokenize expr = .ok tokens) :
    ∀ token ∈ tokens, token.EndsBy expr.length := by
  simpa only [Nat.zero_add, String.length_toList] using (cuts_of_tokenize h).endsBy

theorem exists_unrecognized_of_tokenize {expr : String} {fault : Fault}
    (h : tokenize expr = .error fault) :
    ∃ front c back, expr.toList = front ++ c :: back ∧
      (∀ d ∈ front, Token.isRecognized d = true) ∧ Token.isRecognized c = false ∧
      fault = .diagnostic (.unrecognized expr c front.length) := by
  unfold tokenize at h
  split at h
  · cases h
  · next fault' hscan =>
    obtain ⟨front, back, hexpr, hpos, hfront, hchar⟩ := Token.scan_eq_error hscan
    rw [Nat.zero_add] at hpos
    refine ⟨front, fault'.char, back, hexpr, hfront, hchar, ?_⟩
    rw [← hpos]
    exact (Except.error.inj h).symm

/-- The line is cut into these lexemes, and the end of input behind them. -/
def CutsInto (expr : String) (lexemes : List Lexeme) : Prop :=
  ∃ tokens stop, tokenize expr = .ok (tokens ++ [⟨.eof, stop⟩]) ∧
    tokens.map Token.lexeme = lexemes

theorem cutsInto_iff {expr : String} {lexemes : List Lexeme} :
    CutsInto expr lexemes ↔
      (Token.scan 0 expr.toList).map (List.map Token.lexeme) = .ok (lexemes ++ [.eof]) := by
  rw [CutsInto, tokenize]
  cases Token.scan 0 expr.toList with
  | error fault => simp [Except.map]
  | ok tokens =>
    simp only [Except.map, Except.ok.injEq, List.map_eq_append_iff]
    constructor
    · rintro ⟨body, stop, rfl, rfl⟩
      exact ⟨body, [⟨.eof, stop⟩], rfl, rfl, rfl⟩
    · rintro ⟨body, last, rfl, rfl, hlast⟩
      obtain ⟨⟨_, stop⟩, rfl, rfl⟩ := List.map_eq_singleton_iff.mp hlast
      exact ⟨body, stop, rfl, rfl⟩

theorem CutsInto.unique {expr : String} {lexemes lexemes' : List Lexeme}
    (h : CutsInto expr lexemes) (h' : CutsInto expr lexemes') : lexemes = lexemes' := by
  have heq := (cutsInto_iff.mp h).symm.trans (cutsInto_iff.mp h')
  exact List.append_cancel_right (Except.ok.inj heq)

theorem CutsInto.spells {expr : String} {lexemes : List Lexeme} (h : CutsInto expr lexemes) :
    Token.Spells expr.toList lexemes := by
  obtain ⟨tokens, stop, htokens, rfl⟩ := h
  have hspells := (cuts_of_tokenize htokens).spells
  rwa [List.map_append, List.map_singleton, List.dropLast_concat] at hspells

theorem cutsInto_of_spells {expr : String} {lexemes : List Lexeme}
    (h : Token.Spells expr.toList lexemes) : CutsInto expr lexemes := by
  obtain ⟨tokens, htokens, hlexemes⟩ := tokenize_of_spells h
  exact ⟨tokens, expr.length, htokens, hlexemes⟩

end CallByValue
