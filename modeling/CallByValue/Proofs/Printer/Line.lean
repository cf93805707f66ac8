import CallByValue.Proofs.Printer.RoundTrip
import CallByValue.Proofs.Script.Grouping
/-!
# The line of a definition

What the printer writes is made of letters, blanks and the signs of the grammar, and closes as many
parentheses as it opens. So the text of a definition of a value starts with a letter, ends with a
parenthesis, and has neither a comment nor a line end in it: in a file it is a line of its own, and
nothing of it is cut off or taken to go on.
-/

namespace CallByValue

namespace Term

def isPrinted (c : Char) : Bool :=
  Token.isLetter c || [' ', '\\', '.', '=', '(', ')'].contains c

/-- Made of printed characters, with as many parentheses closed as opened. -/
structure Printed (text : String) : Prop where
  chars : ∀ c ∈ text.toList, isPrinted c = true
  count : text.toList.count ')' = text.toList.count '('

namespace Printed

theorem plain {text : String} (hchars : text.toList.all isPrinted = true)
    (hopen : text.toList.count '(' = 0) (hclose : text.toList.count ')' = 0) : Printed text :=
  ⟨List.all_eq_true.mp hchars, hclose.trans hopen.symm⟩

theorem append {left right : String} (hleft : Printed left) (hright : Printed right) :
    Printed (left ++ right) := by
  refine ⟨?_, ?_⟩
  · intro c hc
    rw [String.toList_append, List.mem_append] at hc
    exact hc.elim (hleft.chars c) (hright.chars c)
  · rw [String.toList_append, List.count_append, List.count_append, hleft.count, hright.count]

theorem word {name : String} (h : Token.isWord name = true) : Printed name := by
  have hletters := (Token.isWord_iff.mp h).2
  have hnone (c : Char) (hc : Token.isLetter c = false) : name.toList.count c = 0 := by
    rw [List.count_eq_zero]
    intro hmem
    rw [hletters c hmem] at hc
    cases hc
  refine .plain ?_ (hnone '(' (by decide)) (hnone ')' (by decide))
  rw [List.all_eq_true]
  intro c hc
  rw [isPrinted, hletters c hc, Bool.true_or]

theorem parenthesized {text : String} (h : Printed text) : Printed (parenthesized text) := by
  refine ⟨?_, ?_⟩
  · intro c hc
    simp only [Term.parenthesized, String.toList_append, List.mem_append] at hc
    rcases hc with (hc | hc) | hc
    · exact List.all_eq_true.mp (by decide : "(".toList.all isPrinted = true) c hc
    · exact h.chars c hc
    · exact List.all_eq_true.mp (by decide : ")".toList.all isPrinted = true) c hc
  · have hopen : (")".toList.count '(' = 0 ∧ "(".toList.count '(' = 1) ∧
        (")".toList.count ')' = 1 ∧ "(".toList.count ')' = 0) := by
      decide
    simp only [Term.parenthesized, String.toList_append, List.count_append, h.count, hopen]
    omega

theorem ite {text : String} (h : Printed text) (needed : Bool) :
    Printed (if needed then Term.parenthesized text else text) := by
  cases needed with
  | false => exact h
  | true => exact h.parenthesized

end Printed

theorem bareText_printed {t : Term} {names : List String} (h : Showable t names) {text : String}
    (htext : t.bareText names = .ok text) : Printed text := by
  induction t generalizing names text with
  | var index =>
    obtain ⟨name, hname, -⟩ := h.free index (by simp [freeIndices])
    simp only [bareText, variableText, hname, Except.ok.injEq] at htext
    subst htext
    exact .word (h.words name (List.mem_of_getElem? hname))
  | lam param body ih =>
    rw [bareText, displayName_eq (Token.isWord_iff.mp h.param).1] at htext
    obtain ⟨_, ⟨⟩, hrest⟩ := exists_of_except_bind_eq_ok htext
    obtain ⟨inner, hinner, ⟨⟩⟩ := exists_of_except_bind_eq_ok hrest
    have hfront : Printed "\\" := .plain (by decide) (by decide) (by decide)
    have hdot : Printed ". " := .plain (by decide) (by decide) (by decide)
    have hname : Printed (shownName param body names) := .word (isWord_shownName h.param body names)
    exact ((hfront.append hname).append hdot).append (ih h.body hinner)
  | app lhs rhs ihl ihr =>
    rw [bareText] at htext
    obtain ⟨left, hleft, hrest⟩ := exists_of_except_bind_eq_ok htext
    obtain ⟨right, hright, ⟨⟩⟩ := exists_of_except_bind_eq_ok hrest
    have hblank : Printed " " := .plain (by decide) (by decide) (by decide)
    exact (((ihl h.lhs hleft).ite _).append hblank).append ((ihr h.rhs hright).ite _)

end Term

namespace Script

/-- A text that starts with a letter and ends with a parenthesis is stripped. -/
theorem strip_definition {name text : String} (hname : Token.isWord name = true) :
    Text.strip (name ++ text ++ ")") = name ++ text ++ ")" := by
  obtain ⟨hne, hletters⟩ := Token.isWord_iff.mp hname
  have hchars : name.toList ≠ [] := fun hnil => hne (String.toList_eq_nil_iff.mp hnil)
  have hlist : (name ++ text ++ ")").toList = name.toList ++ text.toList ++ [')'] := by
    simp
  rw [Text.strip_eq_self_iff, hlist]
  constructor
  · rw [Text.dropBlank_eq_self_iff, List.append_assoc, List.head?_append_of_ne_nil _ hchars]
    intro c hc
    rw [Bool.eq_false_iff]
    intro hblank
    have hletter := hletters c (List.mem_of_mem_head? hc)
    rw [Token.isLetter_eq_false_of_isBlank hblank] at hletter
    cases hletter
  · apply List.rdropWhile_eq_self_iff.mpr
    intro hall
    rw [List.getLast_append_of_ne_nil hall (by simp)]
    decide

theorem isWhole_definition {name text : String} (hname : Token.isWord name = true)
    (htext : Term.Printed text) :
    IsWhole (name ++ " = " ++ Term.parenthesized text) ∧
      Text.OneLine (name ++ " = " ++ Term.parenthesized text) := by
  have hequal : Term.Printed " = " := .plain (by decide) (by decide) (by decide)
  have hline := ((Term.Printed.word hname).append hequal).append htext.parenthesized
  have hsplit : name ++ " = " ++ Term.parenthesized text
      = name ++ (" = " ++ "(" ++ text) ++ ")" := by
    rw [Term.parenthesized, ← String.append_assoc, ← String.append_assoc, ← String.append_assoc,
      ← String.append_assoc]
  constructor
  · apply isWhole_of_stripped
    · intro hempty
      have hlist := congrArg String.toList hempty
      simp [Term.parenthesized] at hlist
    · rw [hsplit]
      exact strip_definition hname
    · intro hcomment
      have hprinted := hline.chars ';' (hcomment.subset (by decide))
      exact absurd hprinted (by decide)
    · exact hline.count
  · intro c hc
    have hprinted := hline.chars c hc
    constructor
    · rintro rfl
      exact absurd hprinted (by decide)
    · rintro rfl
      exact absurd hprinted (by decide)

end Script

end CallByValue
