import CallByValue.Script
import Mathlib.Data.List.DropRight
import Mathlib.Data.List.Infix
/-!
# Cutting comments and blanks

A line loses its comment and the blanks around the rest. The two cuts get in each other's way only
at the end: the comment mark holds no blank, so blanks cut off first cannot hide one, and blanks in
front of a mark are uncovered by the cut. It follows that a line may be stripped before it is
cleaned. It also follows that a line may be joined to a pending text before it is cleaned or after,
as long as the pending text is stripped and has no comment mark in it: the blank between them keeps
the two from making one up.
-/

namespace CallByValue

namespace Text

/-! ### Blanks at the two ends -/

def trim (cs : List Char) : List Char :=
  dropBlankEnd (dropBlank cs)

theorem toList_strip (s : String) : (strip s).toList = trim s.toList :=
  String.toList_ofList

theorem toList_stripEnd (s : String) : (stripEnd s).toList = dropBlankEnd s.toList :=
  String.toList_ofList

theorem dropBlankEnd_append_blank {front back : List Char} (h : ∀ c ∈ back, isBlank c = true) :
    dropBlankEnd (front ++ back) = dropBlankEnd front := by
  have hback : ∀ c ∈ back.reverse, isBlank c = true := fun c hc => h c (List.mem_reverse.mp hc)
  rw [dropBlankEnd, List.reverse_append, List.dropWhile_append_of_pos hback, dropBlankEnd]

theorem exists_eq_dropBlankEnd_append (cs : List Char) :
    ∃ back, (∀ c ∈ back, isBlank c = true) ∧ cs = dropBlankEnd cs ++ back :=
  ⟨cs.rtakeWhile isBlank, fun _ hc => List.mem_rtakeWhile_imp hc,
    List.rdropWhile_append_rtakeWhile.symm⟩

theorem dropBlankEnd_prefix_self (cs : List Char) : dropBlankEnd cs <+: cs :=
  List.rdropWhile_prefix isBlank cs

theorem dropBlankEnd_append_dropBlankEnd (front cs : List Char) :
    dropBlankEnd (front ++ dropBlankEnd cs) = dropBlankEnd (front ++ cs) := by
  obtain ⟨back, hback, hcs⟩ := exists_eq_dropBlankEnd_append cs
  conv => rhs; rw [hcs, ← List.append_assoc, dropBlankEnd_append_blank hback]

theorem dropBlank_cons_of_blank {c : Char} (h : isBlank c = true) (cs : List Char) :
    dropBlank (c :: cs) = dropBlank cs :=
  List.dropWhile_cons_of_pos h

theorem dropBlank_cons_of_not_blank {c : Char} (h : isBlank c = false) (cs : List Char) :
    dropBlank (c :: cs) = c :: cs :=
  List.dropWhile_cons_of_neg (by simp [h])

theorem dropBlank_eq_self_iff {cs : List Char} :
    dropBlank cs = cs ↔ ∀ c ∈ cs.head?, isBlank c = false := by
  cases cs with
  | nil => simp [dropBlank]
  | cons c cs =>
    cases hblank : isBlank c with
    | false => simp [dropBlank_cons_of_not_blank hblank, hblank]
    | true =>
      have hle : (dropBlank cs).length ≤ cs.length := (List.dropWhile_suffix isBlank).length_le
      refine ⟨?_, fun h => absurd (h c rfl) (by simp [hblank])⟩
      intro h
      rw [dropBlank_cons_of_blank hblank] at h
      rw [h, List.length_cons] at hle
      omega

structure Stripped (cs : List Char) : Prop where
  front : dropBlank cs = cs
  back : dropBlankEnd cs = cs

theorem Stripped.trim_eq {cs : List Char} (h : Stripped cs) : trim cs = cs := by
  rw [trim, h.front, h.back]

theorem Stripped.dropBlank_append {front : List Char} (h : Stripped front) (hne : front ≠ [])
    (back : List Char) : dropBlank (front ++ back) = front ++ back := by
  rw [dropBlank_eq_self_iff, List.head?_append_of_ne_nil _ hne]
  exact dropBlank_eq_self_iff.mp h.front

/-- Blanks at the end are looked for behind a stripped part only. -/
theorem Stripped.dropBlankEnd_append {front : List Char} (h : Stripped front) (back : List Char) :
    dropBlankEnd (front ++ back) = front ++ dropBlankEnd back := by
  rw [← dropBlankEnd_append_dropBlankEnd]
  by_cases hback : dropBlankEnd back = []
  · rw [hback, List.append_nil, h.back]
  · refine List.rdropWhile_eq_self_iff.mpr fun hne => ?_
    rw [List.getLast_append_of_ne_nil hne hback]
    exact List.rdropWhile_last_not isBlank back hback

theorem dropBlank_dropBlankEnd {cs : List Char} (h : dropBlank cs = cs) :
    dropBlank (dropBlankEnd cs) = dropBlankEnd cs := by
  rw [dropBlank_eq_self_iff] at h ⊢
  obtain ⟨back, hback⟩ := dropBlankEnd_prefix_self cs
  intro c hc
  refine h c ?_
  rw [← hback, List.head?_append, hc]
  rfl

theorem stripped_trim (cs : List Char) : Stripped (trim cs) where
  front := dropBlank_dropBlankEnd (List.dropWhile_idempotent isBlank cs)
  back := List.rdropWhile_idempotent isBlank (dropBlank cs)

theorem strip_eq_self_iff {s : String} : strip s = s ↔ Stripped s.toList := by
  rw [← String.toList_inj, toList_strip]
  refine ⟨?_, Stripped.trim_eq⟩
  intro h
  rw [← h]
  exact stripped_trim _

theorem exists_eq_append_strip (s : String) :
    ∃ front back, (∀ c ∈ front, isBlank c = true) ∧ (∀ c ∈ back, isBlank c = true) ∧
      s.toList = front ++ ((strip s).toList ++ back) := by
  obtain ⟨back, hback, hrest⟩ := exists_eq_dropBlankEnd_append (dropBlank s.toList)
  refine ⟨s.toList.takeWhile isBlank, back, fun c hc => List.mem_takeWhile_imp hc, hback, ?_⟩
  rw [toList_strip, trim, ← hrest]
  exact List.takeWhile_append_dropWhile.symm

/-! ### What stands before a mark -/

variable {needle : List Char}

theorem before_nil (needle : List Char) : before needle [] = [] := by
  rw [before]
  split <;> simp

theorem before_cons_eq_nil {c : Char} {cs : List Char} (h : needle <+: c :: cs) :
    before needle (c :: cs) = [] := by
  simp only [before, position?, if_pos (List.isPrefixOf_iff_prefix.mpr h), List.take_zero]

theorem before_cons_eq_cons {c : Char} {cs : List Char} (h : ¬ needle <+: c :: cs) :
    before needle (c :: cs) = c :: before needle cs := by
  simp only [before, position?, if_neg (mt List.isPrefixOf_iff_prefix.mp h)]
  cases position? needle cs <;> rfl

theorem before_prefix_self (needle cs : List Char) : before needle cs <+: cs := by
  rw [before]
  split
  · exact List.take_prefix _ _
  · exact List.prefix_rfl

theorem before_of_not_infix {cs : List Char} (h : ¬ needle <:+: cs) : before needle cs = cs := by
  induction cs with
  | nil => exact before_nil needle
  | cons c cs ih =>
    rw [List.infix_cons_iff, not_or] at h
    rw [before_cons_eq_cons h.1, ih h.2]

/-- A prefix does not reach into a part whose first character is none of its own. -/
theorem prefix_of_prefix_append {front back : List Char} (h : needle <+: front ++ back)
    (hback : ∀ c ∈ back.head?, c ∉ needle) : needle <+: front := by
  rcases List.prefix_or_prefix_of_prefix h (List.prefix_append front back) with hshort | hlong
  · exact hshort
  · obtain ⟨more, rfl⟩ := hlong
    have hmore : more <+: back := (List.prefix_append_right_inj front).mp h
    cases more with
    | nil => simp
    | cons c more =>
      obtain ⟨rest, rfl⟩ := hmore
      exact absurd (by simp) (hback c rfl)

section NoBlank

variable (hblank : ∀ c ∈ needle, isBlank c = false)

include hblank

/-- Blanks at the end survive the cut or do not, but nothing else depends on them. -/
theorem exists_before_append_blank {back : List Char} (hback : ∀ c ∈ back, isBlank c = true)
    (cs : List Char) :
    ∃ left, (∀ c ∈ left, isBlank c = true) ∧
      before needle (cs ++ back) = before needle cs ++ left := by
  have hhead : ∀ c ∈ back.head?, c ∉ needle := by
    intro c hc hmem
    have hc' := hback c (List.mem_of_mem_head? hc)
    rw [hblank c hmem] at hc'
    cases hc'
  induction cs with
  | nil =>
    refine ⟨before needle back, fun c hc => hback c ((before_prefix_self needle back).subset hc), ?_⟩
    rw [before_nil, List.nil_append, List.nil_append]
  | cons c cs ih =>
    obtain ⟨left, hleft, heq⟩ := ih
    rw [List.cons_append]
    by_cases hstarts : needle <+: c :: cs
    · have hlonger : needle <+: c :: (cs ++ back) :=
        hstarts.trans (List.prefix_append (c :: cs) back)
      rw [before_cons_eq_nil hlonger, before_cons_eq_nil hstarts]
      exact ⟨[], by simp, rfl⟩
    · have hlonger : ¬ needle <+: (c :: cs) ++ back := fun h =>
        hstarts (prefix_of_prefix_append h hhead)
      rw [List.cons_append] at hlonger
      rw [before_cons_eq_cons hlonger, before_cons_eq_cons hstarts, heq]
      exact ⟨left, hleft, rfl⟩

theorem dropBlankEnd_before_dropBlankEnd (cs : List Char) :
    dropBlankEnd (before needle (dropBlankEnd cs)) = dropBlankEnd (before needle cs) := by
  obtain ⟨back, hback, hcs⟩ := exists_eq_dropBlankEnd_append cs
  obtain ⟨left, hleft, heq⟩ := exists_before_append_blank hblank hback (dropBlankEnd cs)
  conv => rhs; rw [hcs, heq, dropBlankEnd_append_blank hleft]

end NoBlank

variable (hne : needle ≠ [])

include hne

theorem not_prefix_of_head {cs : List Char} (h : ∀ c ∈ cs.head?, c ∉ needle) :
    ¬ needle <+: cs := by
  intro hstarts
  have hnil : needle <+: [] := prefix_of_prefix_append hstarts h
  exact hne (List.prefix_nil.mp hnil)

theorem not_infix_before (cs : List Char) : ¬ needle <:+: before needle cs := by
  induction cs with
  | nil => simpa [before_nil] using hne
  | cons c cs ih =>
    by_cases hfront : needle <+: c :: cs
    · simpa [before_cons_eq_nil hfront] using hne
    · rw [before_cons_eq_cons hfront, List.infix_cons_iff, not_or]
      refine ⟨?_, ih⟩
      intro hstarts
      exact hfront (hstarts.trans ((List.prefix_cons_inj c).mpr (before_prefix_self needle cs)))

theorem before_append_cons {front : List Char} (hfront : ¬ needle <:+: front) {x : Char}
    (hx : x ∉ needle) (cs : List Char) :
    before needle (front ++ x :: cs) = front ++ x :: before needle cs := by
  have hhead : ∀ c ∈ (x :: cs).head?, c ∉ needle := by simpa using hx
  induction front with
  | nil => exact before_cons_eq_cons (not_prefix_of_head hne hhead)
  | cons c front ih =>
    rw [List.infix_cons_iff, not_or] at hfront
    have hstarts : ¬ needle <+: (c :: front) ++ x :: cs := fun h =>
      hfront.1 (prefix_of_prefix_append h hhead)
    rw [List.cons_append] at hstarts ⊢
    rw [before_cons_eq_cons hstarts, ih hfront.2, List.cons_append]

variable (hblank : ∀ c ∈ needle, isBlank c = false)

include hblank

theorem before_dropBlank (cs : List Char) :
    before needle (dropBlank cs) = dropBlank (before needle cs) := by
  induction cs with
  | nil => exact (before_nil needle).trans (congrArg dropBlank (before_nil needle)).symm
  | cons c cs ih =>
    cases hc : isBlank c with
    | true =>
      have hhead : ∀ d ∈ (c :: cs).head?, d ∉ needle := by
        rintro d ⟨⟩ hd
        rw [hblank c hd] at hc
        cases hc
      rw [dropBlank_cons_of_blank hc, ih, before_cons_eq_cons (not_prefix_of_head hne hhead),
        dropBlank_cons_of_blank hc]
    | false =>
      rw [dropBlank_cons_of_not_blank hc]
      by_cases hstarts : needle <+: c :: cs
      · rw [before_cons_eq_nil hstarts]
        rfl
      · rw [before_cons_eq_cons hstarts, dropBlank_cons_of_not_blank hc]

theorem trim_before (cs : List Char) :
    trim (before needle cs) = dropBlankEnd (before needle (trim cs)) := by
  rw [trim, trim, dropBlankEnd_before_dropBlankEnd hblank, before_dropBlank hne hblank]

end Text

namespace Script

open Text (Stripped trim)

theorem commentMark_ne_nil : commentMark ≠ [] := by
  decide

theorem isBlank_of_mem_commentMark : ∀ c ∈ commentMark, Text.isBlank c = false := by
  have hall : commentMark.all (fun c => !Text.isBlank c) = true := by decide
  simpa using hall

theorem toList_clean (line : String) :
    (clean line).toList = trim (Text.before commentMark line.toList) := by
  rw [clean, Text.toList_strip, String.toList_ofList]

theorem strip_clean (line : String) : Text.strip (clean line) = clean line := by
  rw [Text.strip_eq_self_iff, toList_clean]
  exact Text.stripped_trim _

theorem not_infix_clean (line : String) : ¬ commentMark <:+: (clean line).toList := by
  rw [toList_clean, trim]
  intro hmark
  have hpart : Text.dropBlank (Text.before commentMark line.toList)
      <:+: Text.before commentMark line.toList := (List.dropWhile_suffix _).isInfix
  have hcut := (Text.dropBlankEnd_prefix_self _).isInfix.trans hpart
  exact Text.not_infix_before commentMark_ne_nil _ (hmark.trans hcut)

theorem clean_strip (line : String) : clean (Text.strip line) = clean line := by
  rw [← String.toList_inj, toList_clean, toList_clean, Text.toList_strip,
    Text.trim_before commentMark_ne_nil isBlank_of_mem_commentMark,
    Text.trim_before commentMark_ne_nil isBlank_of_mem_commentMark,
    (Text.stripped_trim _).trim_eq]

/-- Where there is no comment, only the blanks go. -/
theorem clean_of_not_infix {line : String} (h : ¬ commentMark <:+: line.toList) :
    clean line = Text.strip line := by
  rw [clean, Text.before_of_not_infix h, String.ofList_toList]

/-- A text that a further line can be joined to. -/
structure IsPart (text : String) : Prop where
  stripped : Text.strip text = text
  noComment : ¬ commentMark <:+: text.toList
  isOpen : isOpen text = true

theorem IsPart.ne_empty {text : String} (h : IsPart text) : text ≠ "" := by
  rintro rfl
  exact absurd h.isOpen (by decide)

theorem IsPart.isEmpty_eq_false {text : String} (h : IsPart text) : text.isEmpty = false := by
  rw [Bool.eq_false_iff, ne_eq, String.isEmpty_iff]
  exact h.ne_empty

theorem isPart_clean {line : String} (h : Script.isOpen (clean line) = true) :
    IsPart (clean line) :=
  ⟨strip_clean line, not_infix_clean line, h⟩

theorem toList_join (text other : String) :
    (text ++ " " ++ other).toList = text.toList ++ ' ' :: other.toList := by
  simp

theorem IsPart.toList_stripEnd_join {text : String} (h : IsPart text) (other : String) :
    (Text.stripEnd (text ++ " " ++ other)).toList
      = text.toList ++ Text.dropBlankEnd (' ' :: other.toList) := by
  rw [Text.toList_stripEnd, toList_join]
  exact (Text.strip_eq_self_iff.mp h.stripped).dropBlankEnd_append _

theorem IsPart.stripEnd_join_empty {text : String} (h : IsPart text) :
    Text.stripEnd (text ++ " " ++ "") = text := by
  rw [← String.toList_inj, h.toList_stripEnd_join]
  exact List.append_nil _

theorem IsPart.stripEnd_join_ne_empty {text : String} (h : IsPart text) (other : String) :
    Text.stripEnd (text ++ " " ++ other) ≠ "" := by
  intro hempty
  have hnil := congrArg String.toList hempty
  rw [h.toList_stripEnd_join] at hnil
  exact h.ne_empty (String.toList_eq_nil_iff.mp (List.append_eq_nil_iff.mp hnil).1)

/-- A line may be joined to a part before it is cleaned or after. -/
theorem IsPart.clean_join {text : String} (h : IsPart text) (line : String) :
    clean (text ++ " " ++ Text.strip line) = Text.stripEnd (text ++ " " ++ clean line) := by
  have hstripped := Text.strip_eq_self_iff.mp h.stripped
  have hne : text.toList ≠ [] := fun hnil => h.ne_empty (String.toList_eq_nil_iff.mp hnil)
  rw [← String.toList_inj, toList_clean, Text.toList_stripEnd, toList_join, toList_join,
    toList_clean, Text.toList_strip,
    Text.before_append_cons commentMark_ne_nil h.noComment (by decide), trim,
    hstripped.dropBlank_append hne, Text.trim_before commentMark_ne_nil isBlank_of_mem_commentMark]
  have hend := Text.dropBlankEnd_append_dropBlankEnd (text.toList ++ [' '])
    (Text.before commentMark (trim line.toList))
  simpa only [List.append_assoc, List.singleton_append] using hend.symm

end Script

end CallByValue
