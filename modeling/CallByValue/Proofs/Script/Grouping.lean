import CallByValue.Proofs.Script.Cleaning
import CallByValue.Text.Lines
/-!
# Files of whole lines

Every expression that is found in a file has something in it. A line is whole if cleaning leaves it
as it is, there is something on it, and it opens no more parentheses than it closes. A file of whole
lines is cut into just these lines, each an expression of its own.
-/

namespace CallByValue

/-! ### Line ends -/

namespace Text

def OneLine (s : String) : Prop :=
  ∀ c ∈ s.toList, c ≠ '\n' ∧ c ≠ '\r'

theorem cutLines_append {cs : List Char} (h : ∀ c ∈ cs, c ≠ '\n' ∧ c ≠ '\r')
    (line rest : List Char) :
    cutLines line (cs ++ '\n' :: rest) = (line.reverse ++ cs) :: cutLines [] rest := by
  induction cs generalizing line with
  | nil => simp [cutLines]
  | cons c cs ih =>
    have hc := h c List.mem_cons_self
    have hcut : cutLines line (c :: (cs ++ '\n' :: rest))
        = cutLines (c :: line) (cs ++ '\n' :: rest) := by
      rw [cutLines]
      · simp [hc]
      · rintro later rfl
        exact absurd rfl hc.2
    rw [List.cons_append, hcut, ih (fun d hd => h d (List.mem_cons_of_mem _ hd))]
    simp

/-- Lines that are written one after another, each with a line end, are the lines of what is
written. -/
theorem lines_join {texts : List String} (h : ∀ text ∈ texts, OneLine text) :
    lines (String.join (texts.map (· ++ "\n"))) = texts := by
  have hcut : cutLines [] (String.join (texts.map (· ++ "\n"))).toList
      = texts.map String.toList := by
    induction texts with
    | nil => rfl
    | cons text texts ih =>
      have hjoin : (String.join ((text :: texts).map (· ++ "\n"))).toList
          = text.toList ++ '\n' :: (String.join (texts.map (· ++ "\n"))).toList := by
        simp
      rw [hjoin, cutLines_append (h text List.mem_cons_self),
        ih fun other hother => h other (List.mem_cons_of_mem _ hother)]
      rfl
  rw [lines, hcut, List.map_map]
  simp [Function.comp_def]

end Text

/-! ### Expressions -/

namespace Script

/-- The line is an expression of its own. -/
structure IsWhole (line : String) : Prop where
  clean_eq : clean line = line
  ne_empty : line ≠ ""
  isOpen : isOpen line = false

theorem isWhole_of_stripped {line : String} (hne : line ≠ "") (hstripped : Text.strip line = line)
    (hcomment : ¬ commentMark <:+: line.toList)
    (hcount : line.toList.count ')' = line.toList.count '(') : IsWhole line := by
  refine ⟨?_, hne, ?_⟩
  · rw [clean, Text.before_of_not_infix hcomment, String.ofList_toList, hstripped]
  · rw [Script.isOpen, hcount, decide_eq_false_iff_not]
    exact Nat.lt_irrefl _

namespace Grouping

theorem feed_fresh (entries : List Entry) (number : Int) (line : String) :
    (Grouping.mk entries false).feed number line
      = (clean line, ⟨if (clean line).isEmpty then entries else ⟨clean line, number⟩ :: entries,
          isOpen (clean line)⟩) :=
  rfl

theorem feed_continued (latest : Entry) (earlier : List Entry) (number : Int) (line : String) :
    (Grouping.mk (latest :: earlier) true).feed number line
      = (Text.stripEnd (latest.text ++ " " ++ clean line),
          ⟨⟨Text.stripEnd (latest.text ++ " " ++ clean line), latest.number⟩ :: earlier,
            isOpen (Text.stripEnd (latest.text ++ " " ++ clean line))⟩) :=
  rfl

/-- No expression is empty, and one that goes on can be joined to. -/
structure Filled (grouping : Grouping) : Prop where
  ne_empty : ∀ entry ∈ grouping.entries, entry.text ≠ ""
  part : grouping.continuing = true → ∀ latest ∈ grouping.entries.head?, IsPart latest.text

theorem filled_iff {entries : List Entry} {continuing : Bool} :
    Filled ⟨entries, continuing⟩ ↔
      (∀ entry ∈ entries, entry.text ≠ "") ∧
      (continuing = true → ∀ latest ∈ entries.head?, IsPart latest.text) :=
  ⟨fun h => ⟨h.ne_empty, h.part⟩, fun h => ⟨h.1, h.2⟩⟩

theorem Filled.fresh {entries : List Entry} (h : ∀ entry ∈ entries, entry.text ≠ "") (number : Int)
    (line : String) :
    Filled ⟨if (clean line).isEmpty then entries else ⟨clean line, number⟩ :: entries,
      isOpen (clean line)⟩ := by
  rw [filled_iff]
  by_cases hempty : clean line = ""
  · rw [if_pos (String.isEmpty_iff.mpr hempty)]
    refine ⟨h, ?_⟩
    intro hopen
    exact absurd hempty (isPart_clean hopen).ne_empty
  · rw [if_neg (fun hisEmpty => hempty (String.isEmpty_iff.mp hisEmpty))]
    refine ⟨?_, ?_⟩
    · intro entry hmem
      rcases List.mem_cons.mp hmem with rfl | hmem
      · exact hempty
      · exact h entry hmem
    · intro hopen latest hlatest
      rw [← Option.some.inj hlatest]
      exact isPart_clean hopen

theorem Filled.continued {latest : Entry} {earlier : List Entry}
    (h : ∀ entry ∈ earlier, entry.text ≠ "") (hpart : IsPart latest.text) (line : String) :
    Filled ⟨⟨Text.stripEnd (latest.text ++ " " ++ clean line), latest.number⟩ :: earlier,
      isOpen (Text.stripEnd (latest.text ++ " " ++ clean line))⟩ := by
  rw [filled_iff]
  refine ⟨?_, ?_⟩
  · intro entry hmem
    rcases List.mem_cons.mp hmem with rfl | hmem
    · exact hpart.stripEnd_join_ne_empty _
    · exact h entry hmem
  · intro hopen joined hjoined
    rw [← Option.some.inj hjoined]
    rw [← hpart.clean_join] at hopen ⊢
    exact isPart_clean hopen

theorem Filled.feed {grouping : Grouping} (h : grouping.Filled) (number : Int) (line : String) :
    (grouping.feed number line).2.Filled := by
  obtain ⟨entries, continuing⟩ := grouping
  obtain ⟨hne, hpart⟩ := filled_iff.mp h
  cases continuing with
  | false => exact .fresh hne number line
  | true =>
    cases entries with
    | nil => exact .fresh hne number line
    | cons latest earlier =>
      rw [feed_continued]
      apply Filled.continued _ (hpart rfl latest rfl)
      intro entry hmem
      exact hne entry (List.mem_cons_of_mem _ hmem)

theorem Filled.feedAll {grouping : Grouping} (h : grouping.Filled) (number : Int)
    (lines : List String) : (grouping.feedAll number lines).Filled := by
  induction lines generalizing grouping number with
  | nil => exact h
  | cons line lines ih => exact ih (h.feed number line) (number + 1)

/-- Every expression has the number of a line before the one with the given number. -/
structure Before (number : Int) (entries : List Entry) : Prop where
  numbers : ∀ entry ∈ entries, 0 < entry.number ∧ entry.number < number

theorem Before.succ {number : Int} {entries : List Entry} (h : Before number entries) :
    Before (number + 1) entries := by
  refine ⟨fun entry hmem => ?_⟩
  have hentry := h.numbers entry hmem
  omega

theorem Before.cons {number : Int} {entries : List Entry} (h : Before number entries)
    {entry : Entry} (hentry : 0 < entry.number ∧ entry.number < number) :
    Before number (entry :: entries) :=
  ⟨List.forall_mem_cons.mpr ⟨hentry, h.numbers⟩⟩

theorem Before.fresh {number : Int} {entries : List Entry} (h : Before number entries)
    (hpos : 0 < number) (line : String) :
    Before (number + 1)
      (if (clean line).isEmpty then entries else ⟨clean line, number⟩ :: entries) := by
  split
  · exact h.succ
  · exact h.succ.cons ⟨hpos, by dsimp only; omega⟩

theorem Before.feed {grouping : Grouping} {number : Int} (h : Before number grouping.entries)
    (hpos : 0 < number) (line : String) :
    Before (number + 1) (grouping.feed number line).2.entries := by
  obtain ⟨entries, continuing⟩ := grouping
  cases continuing with
  | false =>
    rw [feed_fresh]
    dsimp only
    exact h.fresh hpos line
  | true =>
    cases entries with
    | nil =>
      rw [Grouping.feed]
      dsimp only
      exact h.fresh hpos line
    | cons latest earlier =>
      obtain ⟨hlatest, hearlier⟩ := List.forall_mem_cons.mp h.succ.numbers
      rw [feed_continued]
      exact Before.cons ⟨hearlier⟩ hlatest

theorem Before.feedAll {grouping : Grouping} {number : Int} (h : Before number grouping.entries)
    (hpos : 0 < number) (lines : List String) :
    Before (number + lines.length) (grouping.feedAll number lines).entries := by
  induction lines generalizing grouping number with
  | nil => simpa [Grouping.feedAll] using h
  | cons line lines ih =>
    have hrest := ih (h.feed hpos line) (by omega)
    have hlength : number + ((line :: lines).length : Int) = number + 1 + lines.length := by
      rw [List.length_cons]
      omega
    rw [hlength]
    exact hrest

theorem feed_of_isWhole {line : String} (h : IsWhole line) (entries : List Entry) (number : Int) :
    ((Grouping.mk entries false).feed number line).2 = ⟨⟨line, number⟩ :: entries, false⟩ := by
  have hne : line.isEmpty = false := by
    rw [Bool.eq_false_iff, ne_eq, String.isEmpty_iff]
    exact h.ne_empty
  rw [feed_fresh, h.clean_eq, hne, h.isOpen]
  rfl

theorem feedAll_of_isWhole {lines : List String} (h : ∀ line ∈ lines, IsWhole line)
    (entries : List Entry) (number : Int) :
    ((Grouping.mk entries false).feedAll number lines).entries.map Entry.text
      = lines.reverse ++ entries.map Entry.text := by
  induction lines generalizing entries number with
  | nil => rfl
  | cons line lines ih =>
    rw [feedAll, feed_of_isWhole (h line List.mem_cons_self),
      ih fun other hother => h other (List.mem_cons_of_mem _ hother)]
    simp

end Grouping

theorem text_ne_empty_of_mem_entries {lines : List String} {entry : Entry}
    (h : entry ∈ entries lines) : entry.text ≠ "" := by
  have hempty : Grouping.empty.Filled := ⟨by simp [Grouping.empty], by simp [Grouping.empty]⟩
  exact (hempty.feedAll 1 lines).ne_empty entry (List.mem_reverse.mp h)

theorem number_le_of_mem_entries {lines : List String} {entry : Entry}
    (h : entry ∈ entries lines) : 0 < entry.number ∧ entry.number ≤ lines.length := by
  have hempty : Grouping.Before 1 Grouping.empty.entries := ⟨List.forall_mem_nil _⟩
  have hentry := (hempty.feedAll (by omega) lines).numbers entry (List.mem_reverse.mp h)
  omega

theorem entries_of_isWhole {lines : List String} (h : ∀ line ∈ lines, IsWhole line) :
    (entries lines).map Entry.text = lines := by
  have htexts := Grouping.feedAll_of_isWhole h [] 1
  rw [entries, List.map_reverse, Grouping.empty, htexts]
  simp

end Script

end CallByValue
