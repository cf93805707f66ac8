import CallByValue.Proofs.Parser.Trees
import CallByValue.Proofs.Printer.RoundTrip
import Mathlib.Data.Finset.Range
/-!
# Texts are unambiguous

A variable that no binder binds is written as a number, and a number cannot be read back. But it can
be given a name. Spelled in letters, and so long that no binder of the text has a name of that length,
the numbers of a text are words that hide nothing and are hidden by nothing. The spelled text is the
text of the same term, with the spelled numbers as the names of binders around it, and it is made from
the text alone. So two terms of one text have one spelled text, which reads back to both of them.
-/

namespace CallByValue

open Grammar

namespace Term

/-! ### Spelling -/

/-- The letter that a digit gives way to. -/
def letterOf (digit : Char) : Char :=
  Char.ofNat (digit.toNat + 49)

/-- What a character gives way to: the sign of a number to `length` letters and a digit to one. -/
def spelling (length : Nat) (c : Char) : List Char :=
  if c = '#' then List.replicate length 'n' else if c.isDigit then [letterOf c] else [c]

/-- The text with its numbers in letters. -/
def spelled (length : Nat) (text : String) : String :=
  String.ofList (text.toList.flatMap (spelling length))

section Digits

variable {c : Char}

theorem toNat_of_isDigit (h : c.isDigit = true) : 48 ≤ c.toNat ∧ c.toNat ≤ 57 :=
  Char.isDigit_iff_toNat.mp h

theorem toNat_letterOf (h : c.isDigit = true) : (letterOf c).toNat = c.toNat + 49 := by
  have hrange := toNat_of_isDigit h
  have hvalid : (c.toNat + 49).isValidChar := Or.inl (by omega)
  rw [letterOf, Char.ofNat, dif_pos hvalid]
  rfl

theorem isLetter_letterOf (h : c.isDigit = true) : Token.isLetter (letterOf c) = true := by
  have hrange := toNat_of_isDigit h
  rw [Token.isLetter_iff_toNat, toNat_letterOf h]
  omega

theorem ofNat_letterOf (h : c.isDigit = true) : Char.ofNat ((letterOf c).toNat - 49) = c := by
  rw [toNat_letterOf h, Nat.add_sub_cancel, Char.ofNat_toNat]

theorem ne_of_isLetter (h : Token.isLetter c = true) : c ≠ '#' ∧ c.isDigit = false := by
  rw [Token.isLetter_iff_toNat] at h
  constructor
  · rintro rfl
    revert h
    decide
  · rw [Bool.eq_false_iff]
    intro hdigit
    have hrange := toNat_of_isDigit hdigit
    omega

end Digits

variable {length : Nat}

theorem spelled_append (left right : String) :
    spelled length (left ++ right) = spelled length left ++ spelled length right := by
  rw [spelled, String.toList_append, List.flatMap_append, String.ofList_append]
  rfl

theorem spelled_eq_self {text : String} (h : ∀ c ∈ text.toList, c ≠ '#' ∧ c.isDigit = false) :
    spelled length text = text := by
  have hchars : text.toList.flatMap (spelling length) = text.toList.flatMap fun c => [c] := by
    apply List.flatMap_congr
    intro c hc
    obtain ⟨hsign, hdigit⟩ := h c hc
    rw [spelling, if_neg hsign, if_neg (by simp [hdigit])]
  rw [spelled, hchars, ← List.map_eq_flatMap, List.map_id', String.ofList_toList]

theorem spelled_word {name : String} (h : Token.isWord name = true) :
    spelled length name = name :=
  spelled_eq_self fun c hc => ne_of_isLetter ((Token.isWord_iff.mp h).2 c hc)

/-! ### Words for numbers -/

def numberWord (length index : Nat) : String :=
  spelled length ("#" ++ toString index)

theorem isDigit_of_mem_toDigits {index : Nat} {c : Char} (h : c ∈ Nat.toDigits 10 index) :
    c.isDigit = true :=
  Nat.isDigit_of_mem_toDigits (by decide) (by decide) h

theorem toList_numberWord (length index : Nat) :
    (numberWord length index).toList
      = List.replicate length 'n' ++ (Nat.toDigits 10 index).map letterOf := by
  have hdigits : (Nat.toDigits 10 index).flatMap (spelling length)
      = (Nat.toDigits 10 index).map letterOf := by
    rw [List.map_eq_flatMap]
    apply List.flatMap_congr
    intro c hc
    have hdigit := isDigit_of_mem_toDigits hc
    have hsign : c ≠ '#' := by
      rintro rfl
      cases hdigit
    rw [spelling, if_neg hsign, if_pos hdigit]
  have hsign : spelled length "#" = String.ofList (List.replicate length 'n') :=
    congrArg String.ofList (List.append_nil _)
  rw [numberWord, spelled_append, hsign, spelled, Nat.toString_eq_ofList_toDigits,
    String.toList_append, String.toList_ofList, String.toList_ofList, String.toList_ofList, hdigits]

theorem length_le_length_numberWord (length index : Nat) :
    length ≤ (numberWord length index).length := by
  rw [← String.length_toList, toList_numberWord, List.length_append, List.length_replicate]
  exact Nat.le_add_right _ _

theorem isWord_numberWord (hlength : 0 < length) (index : Nat) :
    Token.isWord (numberWord length index) = true := by
  rw [Token.isWord_iff]
  constructor
  · intro hempty
    have hle := length_le_length_numberWord length index
    rw [hempty, String.length_empty] at hle
    omega
  · rw [toList_numberWord, List.forall_mem_append]
    constructor
    · intro c hc
      rw [List.eq_of_mem_replicate hc]
      rfl
    · intro c hc
      obtain ⟨digit, hdigit, rfl⟩ := List.mem_map.mp hc
      exact isLetter_letterOf (isDigit_of_mem_toDigits hdigit)

theorem numberWord_injective {i j : Nat} (h : numberWord length i = numberWord length j) :
    i = j := by
  have hback (index : Nat) : ((Nat.toDigits 10 index).map letterOf).map
      (fun c => Char.ofNat (c.toNat - 49)) = Nat.toDigits 10 index := by
    rw [List.map_map]
    refine (List.map_congr_left ?_).trans (List.map_id _)
    exact fun c hc => ofNat_letterOf (isDigit_of_mem_toDigits hc)
  have hletters : (Nat.toDigits 10 i).map letterOf = (Nat.toDigits 10 j).map letterOf := by
    have hchars := congrArg String.toList h
    rw [toList_numberWord, toList_numberWord] at hchars
    exact List.append_cancel_left hchars
  have hdigits : Nat.toDigits 10 i = Nat.toDigits 10 j := by
    rw [← hback i, hletters, hback j]
  rw [← Nat.ofDigitChars_ten_toDigits (n := i), hdigits, Nat.ofDigitChars_ten_toDigits]

/-- The words for the first numbers, in order. -/
def numberWords (length count : Nat) : List String :=
  (List.range count).map (numberWord length)

theorem getElem?_numberWords {count index : Nat} (h : index < count) :
    (numberWords length count)[index]? = some (numberWord length index) := by
  rw [numberWords, List.getElem?_map, List.getElem?_range h, Option.map_some]

/-! ### Names that are too long to matter -/

theorem freshen_congr {taken more : List String} {c : Char} {name : String}
    (hsubset : taken ⊆ more)
    (hlong : ∀ other ∈ more, other ∈ taken ∨ (freshen taken c name).length < other.length) :
    freshen more c name = freshen taken c name := by
  fun_induction freshen taken c name with
  | case1 name hmem ih =>
    rw [freshen, if_pos (hsubset hmem)]
    exact ih hlong
  | case2 name hmem =>
    rw [freshen, if_neg]
    intro htaken
    rcases hlong name htaken with hold | hless
    · exact hmem hold
    · exact Nat.lt_irrefl _ hless

/-- Names further out do not change how a binder is shown, if they are longer than the name that is
shown. -/
theorem shownName_append {param : String} {body : Term} {names more : List String}
    (hlong : ∀ other ∈ more, (shownName param body names).length < other.length) :
    shownName param body (names ++ more) = shownName param body names := by
  have hsubset : referenced body names ⊆ referenced body (names ++ more) := by
    intro name hname
    obtain ⟨index, hindex, hget⟩ := mem_referenced.mp hname
    have hlt := (List.getElem?_eq_some_iff.mp hget).1
    exact mem_referenced.mpr ⟨index, hindex, (List.getElem?_append_left hlt).trans hget⟩
  have hcases : ∀ name ∈ referenced body (names ++ more),
      name ∈ referenced body names ∨ name ∈ more := by
    intro name hname
    obtain ⟨index, hindex, hget⟩ := mem_referenced.mp hname
    rcases Nat.lt_or_ge index names.length with hlt | hge
    · rw [List.getElem?_append_left hlt] at hget
      exact .inl (mem_referenced.mpr ⟨index, hindex, hget⟩)
    · rw [List.getElem?_append_right hge] at hget
      exact .inr (List.mem_of_getElem? hget)
  cases hlast : param.toList.getLast? with
  | none => simp only [shownName, hlast]
  | some c =>
    simp only [shownName, hlast] at hlong ⊢
    exact freshen_congr hsubset fun name hname => (hcases name hname).imp_right (hlong name)

/-! ### Spelled texts -/

theorem spelled_ite (text : String) (needed : Bool) :
    spelled length (if needed then parenthesized text else text)
      = if needed then parenthesized (spelled length text) else spelled length text := by
  cases needed with
  | false => rfl
  | true =>
    simp only [if_true, parenthesized, spelled_append]
    rfl

theorem length_le_length_ite (text : String) (needed : Bool) :
    text.length ≤ (if needed then parenthesized text else text).length := by
  cases needed with
  | false => exact Nat.le_refl _
  | true =>
    simp only [if_true, parenthesized, String.length_append]
    omega

theorem eq_toString_of_decimal? {n : Nat} {digits : String} (h : Text.decimal? n = some digits) :
    digits = toString n := by
  rw [Text.decimal?] at h
  split at h
  · cases h
  · exact (Option.some.inj h).symm

theorem variableText_spelled {count index : Nat} {names : List String} {text : String}
    (hnames : ∀ name ∈ names, Token.isWord name = true)
    (hfree : ∀ i ∈ (var index).freeIndices names.length, i < count)
    (htext : variableText names index = .ok text) :
    variableText (names ++ numberWords length count) index = .ok (spelled length text) := by
  rw [variableText] at htext ⊢
  cases hget : names[index]? with
  | some name =>
    have hlt := (List.getElem?_eq_some_iff.mp hget).1
    have hname := hnames name (List.mem_of_getElem? hget)
    rw [hget] at htext
    cases htext
    rw [List.getElem?_append_left hlt, hget, spelled_word hname]
  | none =>
    have hle := List.getElem?_eq_none_iff.mp hget
    have hcount : index - names.length < count := by
      apply hfree
      have hroot : (names.length : Int) ≤ index := by omega
      rw [freeIndices, if_pos hroot, List.mem_singleton]
      omega
    rw [hget] at htext
    rw [List.getElem?_append_right hle, getElem?_numberWords hcount]
    dsimp only at htext ⊢
    split at htext
    · next digits hdigits =>
      cases htext
      rw [eq_toString_of_decimal? hdigits, numberWord]
    · cases htext

/-- With the spelled numbers as the names further out, a term has its text spelled, as long as they
are longer than the text. -/
theorem bareText_spelled {count : Nat} {t : Term} {names : List String} {text : String}
    (hparams : ∀ param ∈ t.params, Token.isWord param = true)
    (hnames : ∀ name ∈ names, Token.isWord name = true)
    (hfree : ∀ index ∈ t.freeIndices names.length, index < count)
    (htext : t.bareText names = .ok text) (hlength : text.length < length) :
    t.bareText (names ++ numberWords length count) = .ok (spelled length text) := by
  induction t generalizing names text with
  | var index => exact variableText_spelled hnames hfree htext
  | lam param body ih =>
    have hparam := hparams param List.mem_cons_self
    have hne := (Token.isWord_iff.mp hparam).1
    have hshown := isWord_shownName hparam body names
    rw [bareText, displayName_eq hne] at htext
    obtain ⟨_, ⟨⟩, hrest⟩ := exists_of_except_bind_eq_ok htext
    obtain ⟨inner, hinner, ⟨⟩⟩ := exists_of_except_bind_eq_ok hrest
    simp only [String.length_append] at hlength
    have hstays : shownName param body (names ++ numberWords length count)
        = shownName param body names := by
      apply shownName_append
      intro other hother
      obtain ⟨index, -, rfl⟩ := List.mem_map.mp hother
      have hle := length_le_length_numberWord length index
      omega
    have hbody := ih (fun name hname => hparams name (List.mem_cons_of_mem _ hname))
      (List.forall_mem_cons.mpr ⟨hshown, hnames⟩) (by simpa [freeIndices] using hfree) hinner
      (by omega)
    rw [List.cons_append] at hbody
    rw [bareText, displayName_eq hne, hstays]
    simp only [bind, Except.bind, hbody, spelled_append, spelled_word hshown]
    rfl
  | app lhs rhs ihl ihr =>
    rw [bareText] at htext ⊢
    obtain ⟨left, hleft, hrest⟩ := exists_of_except_bind_eq_ok htext
    obtain ⟨right, hright, ⟨⟩⟩ := exists_of_except_bind_eq_ok hrest
    simp only [String.length_append] at hlength
    have hlefts := length_le_length_ite left lhs.isValue
    have hrights := length_le_length_ite right (rhs.isValue || rhs.isApplication)
    have hlhs := ihl (fun name hname => hparams name (List.mem_append_left _ hname)) hnames
      (fun index hindex => hfree index (List.mem_append_left _ hindex)) hleft (by omega)
    have hrhs := ihr (fun name hname => hparams name (List.mem_append_right _ hname)) hnames
      (fun index hindex => hfree index (List.mem_append_right _ hindex)) hright (by omega)
    simp only [bind, Except.bind, hlhs, hrhs, spelled_append, spelled_ite]
    rfl

section Root

variable {count : Nat} {t : Term} (hparams : ∀ param ∈ t.params, Token.isWord param = true)
  (hfree : ∀ index ∈ t.freeIndices 0, index < count)

include hparams hfree

theorem render_spelled {text : String} (htext : t.render [] = .ok text)
    (hlength : text.length < length) :
    t.render (numberWords length count) = .ok (spelled length text) := by
  rw [render] at htext ⊢
  obtain ⟨bare, hbare, ⟨⟩⟩ := exists_of_except_bind_eq_ok htext
  have hle := length_le_length_ite bare t.isValue
  have hspelled := bareText_spelled hparams (List.forall_mem_nil _) hfree hbare
    (Nat.lt_of_le_of_lt hle hlength)
  rw [List.nil_append] at hspelled
  simp only [bind, Except.bind, hspelled, spelled_ite]
  rfl

theorem showable_numberWords (hlength : 0 < length) : Showable t (numberWords length count) := by
  refine ⟨hparams, ?_, ?_⟩
  · intro name hname
    obtain ⟨index, -, rfl⟩ := List.mem_map.mp hname
    exact isWord_numberWord hlength index
  · intro index hindex
    refine ⟨numberWord length index, getElem?_numberWords (hfree index hindex), ?_⟩
    rw [numberWords, ← List.map_take, List.take_range]
    intro hmem
    obtain ⟨i, hi, heq⟩ := List.mem_map.mp hmem
    have hsame := numberWord_injective heq
    have hlt := List.mem_range.mp hi
    omega

/-- The spelled text is a writing of the tree that the term is shown as. -/
theorem derives_spelled {text : String} (htext : t.render [] = .ok text)
    (hlength : text.length < length) :
    Derives (spelled length text) (t.shown (numberWords length count)) := by
  have hshowable := showable_numberWords hparams hfree (Nat.zero_lt_of_lt hlength)
  obtain ⟨text', htext', lexemes, hspells, hterm⟩ := render_writes hshowable
  cases htext'.symm.trans (render_spelled hparams hfree htext hlength)
  exact ⟨lexemes, cutsInto_of_spells hspells, hterm⟩

end Root

end Term

/-- **Texts are unambiguous.** Two terms whose binders have names that can be read, closed or not, and
which have the same text are the same term up to binder names. -/
theorem render_is_unambiguous {t u : Term} {text : String}
    (ht : ∀ param ∈ t.params, Token.isWord param = true)
    (hu : ∀ param ∈ u.params, Token.isWord param = true)
    (htext : t.render [] = .ok text) (hutext : u.render [] = .ok text) : t.AlphaEq u := by
  obtain ⟨count, hcount⟩ :=
    Finset.exists_nat_subset_range (t.freeIndices 0 ++ u.freeIndices 0).toFinset
  have hfree (index : Nat) (hindex : index ∈ t.freeIndices 0 ++ u.freeIndices 0) : index < count :=
    Finset.mem_range.mp (hcount (List.mem_toFinset.mpr hindex))
  have htfree := (List.forall_mem_append.mp hfree).1
  have hufree := (List.forall_mem_append.mp hfree).2
  have htree := Term.derives_spelled ht htfree htext (Nat.lt_succ_self text.length)
  have hutree := Term.derives_spelled hu hufree hutext (Nat.lt_succ_self text.length)
  obtain ⟨v, hv, hvt⟩ := Term.elaborate_shown .empty
    (Term.showable_numberWords ht htfree (Nat.succ_pos text.length))
  obtain ⟨w, hw, hwu⟩ := Term.elaborate_shown .empty
    (Term.showable_numberWords hu hufree (Nat.succ_pos text.length))
  rw [htree.unique hutree] at hv
  cases hv.symm.trans hw
  exact hvt.symm.trans hwu

/-- The inner binder is renamed in the first term and has the new name in the second. Both are
applied to numbers of two digits, counted from different depths. -/
theorem render_is_unambiguous_renamed :
    Term.render (.app (.var 12) (.lam "x" (.lam "x" (.app (.var 1) (.var 13))))) []
      = .ok "#12 (\\x. \\xx. x #11)" ∧
    Term.render (.app (.var 12) (.lam "x" (.lam "xx" (.app (.var 1) (.var 13))))) []
      = .ok "#12 (\\x. \\xx. x #11)" ∧
    Term.AlphaEq (.app (.var 12) (.lam "x" (.lam "x" (.app (.var 1) (.var 13)))))
      (.app (.var 12) (.lam "x" (.lam "xx" (.app (.var 1) (.var 13))))) := by
  have heleven : Text.decimal? 11 = some "11" := by decide
  have htwelve : Text.decimal? 12 = some "12" := by decide
  have htext : Term.render (.app (.var 12) (.lam "x" (.lam "x" (.app (.var 1) (.var 13))))) []
      = .ok "#12 (\\x. \\xx. x #11)" := by
    simp [Term.render, Term.bareText, Term.displayName, Term.referenced, Term.freeIndices,
      Term.freshen, Term.variableText, Term.isValue, Term.isApplication, Term.parenthesized, bind,
      Except.bind, pure, Except.pure, heleven, htwelve]
  have hutext : Term.render (.app (.var 12) (.lam "x" (.lam "xx" (.app (.var 1) (.var 13))))) []
      = .ok "#12 (\\x. \\xx. x #11)" := by
    simp [Term.render, Term.bareText, Term.displayName, Term.referenced, Term.freeIndices,
      Term.freshen, Term.variableText, Term.isValue, Term.isApplication, Term.parenthesized, bind,
      Except.bind, pure, Except.pure, heleven, htwelve]
  exact ⟨htext, hutext, render_is_unambiguous (by decide) (by decide) htext hutext⟩

end CallByValue
