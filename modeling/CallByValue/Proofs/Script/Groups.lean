import CallByValue.Proofs.Script.Grouping
/-!
# Which lines make up an expression

The expressions of a file can be read off its lines without joining any two of them. The lines that
have something on them once they are cleaned are the pieces; a group of pieces starts where no group
is open, and takes in one piece after another as long as its pieces open more parentheses than they
close. Every expression is a group, written with single spaces, under the number of its first piece.
So the expressions share out the pieces among them, in order, and only the last one can be open.

A grouping works on the joined text instead: it joins a line to the latest expression, strips the
whole, and counts again. What it holds after any number of lines are the closed groups so far and the
open one, if there is one.
-/

namespace CallByValue

namespace Script

/-! ### Pieces and groups -/

/-- The lines that have something on them, cleaned, each under its number. -/
def pieces : (number : Int) → List String → List Entry
  | _, [] => []
  | number, line :: lines =>
    if (clean line).isEmpty then pieces (number + 1) lines
    else ⟨clean line, number⟩ :: pieces (number + 1) lines

/-- Pieces that belong together, of which there is at least one. -/
structure Group where
  first : Entry
  later : List Entry

namespace Group

def pieces (group : Group) : List Entry :=
  group.first :: group.later

/-- How often a character stands in the pieces. -/
def count (group : Group) (c : Char) : Nat :=
  (group.pieces.flatMap fun piece => piece.text.toList).count c

/-- Whether the pieces so far open more parentheses than they close. -/
def goesOn (group : Group) : Bool :=
  group.count ')' < group.count '('

/-- The expression that the pieces make up. -/
def entry (group : Group) : Entry :=
  ⟨" ".intercalate (group.pieces.map Entry.text), group.first.number⟩

/-- The group of a further piece, which joins the open group if there is one. -/
def take : (current : Option Group) → Entry → Group
  | none, piece => ⟨piece, []⟩
  | some group, piece => ⟨group.first, group.later ++ [piece]⟩

end Group

/-- The groups of the pieces that come after the open group. -/
def groups : (current : Option Group) → List Entry → List Group
  | current, [] => current.toList
  | current, piece :: later =>
    if (Group.take current piece).goesOn then groups (some (Group.take current piece)) later
    else Group.take current piece :: groups none later

/-! ### What groups are made of -/

theorem Group.pieces_take (current : Option Group) (piece : Entry) :
    (take current piece).pieces = current.toList.flatMap pieces ++ [piece] := by
  cases current with
  | none => rfl
  | some group => simp [take, pieces]

/-- The groups share out the pieces among them. -/
theorem flatMap_groups (current : Option Group) (row : List Entry) :
    (groups current row).flatMap Group.pieces = current.toList.flatMap Group.pieces ++ row := by
  induction row generalizing current with
  | nil => rw [groups, List.append_nil]
  | cons piece later ih =>
    rw [groups]
    split
    · rw [ih, Option.toList_some, List.flatMap_singleton, Group.pieces_take, List.append_assoc,
        List.singleton_append]
    · rw [List.flatMap_cons, ih, Group.pieces_take, List.append_assoc]
      rfl

theorem sublist_flatMap_pieces (row : List Group) :
    (row.map Group.first).Sublist (row.flatMap Group.pieces) := by
  induction row with
  | nil => exact List.Sublist.slnil
  | cons group row ih =>
    rw [List.map_cons, List.flatMap_cons, Group.pieces, List.cons_append]
    exact (ih.trans (List.sublist_append_right group.later _)).cons_cons group.first

theorem le_of_mem_pieces {number : Int} {lines : List String} {piece : Entry}
    (h : piece ∈ pieces number lines) : number ≤ piece.number := by
  induction lines generalizing number with
  | nil => cases h
  | cons line lines ih =>
    rw [pieces] at h
    split at h
    · have hle := ih h
      omega
    · rcases List.mem_cons.mp h with rfl | h
      · exact Int.le_refl _
      · have hle := ih h
        omega

theorem pairwise_pieces (number : Int) (lines : List String) :
    (pieces number lines).Pairwise fun piece later => piece.number < later.number := by
  induction lines generalizing number with
  | nil => exact List.Pairwise.nil
  | cons line lines ih =>
    rw [pieces]
    split
    · exact ih (number + 1)
    · refine List.pairwise_cons.mpr ⟨?_, ih (number + 1)⟩
      intro piece hmem
      have hle := le_of_mem_pieces hmem
      show number < piece.number
      omega

theorem pairwise_entry {row : List Group}
    (h : (row.flatMap Group.pieces).Pairwise fun piece later => piece.number < later.number) :
    (row.map Group.entry).Pairwise fun entry later => entry.number < later.number := by
  have hfirst := h.sublist (sublist_flatMap_pieces row)
  rw [List.pairwise_map] at hfirst ⊢
  exact hfirst

/-! ### The text of a group -/

theorem count_intercalate {c : Char} (hc : c ≠ ' ') (texts : List String) :
    (" ".intercalate texts).toList.count c = (texts.flatMap String.toList).count c := by
  have hspace : (" ".toList.count c) = 0 := by
    rw [List.count_eq_zero]
    simpa using hc
  induction texts with
  | nil => rfl
  | cons text texts ih =>
    cases texts with
    | nil => simp
    | cons text' texts =>
      rw [String.intercalate_cons_cons, String.toList_append, String.toList_append,
        List.count_append, List.count_append, hspace, Nat.add_zero, ih, ← List.count_append,
        ← List.flatMap_cons]

theorem Group.count_entry (group : Group) {c : Char} (hc : c ≠ ' ') :
    group.entry.text.toList.count c = group.count c := by
  rw [entry, count_intercalate hc, List.flatMap_map, count]

theorem Group.isOpen_entry (group : Group) : isOpen group.entry.text = group.goesOn := by
  rw [isOpen, goesOn, count_entry group (by decide), count_entry group (by decide)]

theorem Group.entry_take_some (group : Group) (piece : Entry) :
    (take (some group) piece).entry
      = ⟨group.entry.text ++ " " ++ piece.text, group.entry.number⟩ := by
  have hne : group.pieces.map Entry.text ≠ [] := List.cons_ne_nil _ _
  have hsplit : " ".intercalate (group.pieces.map Entry.text ++ [piece.text])
      = " ".intercalate (group.pieces.map Entry.text) ++ " " ++ piece.text := by
    rw [String.intercalate_append_of_ne_nil hne (List.cons_ne_nil _ _),
      String.intercalate_singleton]
  rw [entry, pieces_take, Option.toList_some, List.flatMap_singleton, List.map_append]
  exact (Entry.mk.injEq ..).mpr ⟨hsplit, rfl⟩

/-! ### In step -/

/-- A line that something is left of stays whole behind the blank that it is joined with. -/
theorem stripEnd_join {line : String} (hline : clean line ≠ "") (text : String) :
    Text.stripEnd (text ++ " " ++ clean line) = text ++ " " ++ clean line := by
  have hchars : (clean line).toList ≠ [] := fun hnil => hline (String.toList_eq_nil_iff.mp hnil)
  have hback := (Text.strip_eq_self_iff.mp (strip_clean line)).back
  rw [← String.toList_inj, Text.toList_stripEnd, String.toList_append]
  apply List.rdropWhile_eq_self_iff.mpr
  intro hne
  rw [List.getLast_append_of_ne_nil hne hchars]
  exact List.rdropWhile_eq_self_iff.mp hback hchars

namespace Grouping

/-- The grouping that holds the closed groups and the open one, if there is one. -/
def of (closed : List Group) (current : Option Group) : Grouping :=
  ⟨((closed ++ current.toList).map Group.entry).reverse, current.isSome⟩

variable {closed : List Group} {current : Option Group} {line : String}

theorem of_none (closed : List Group) : of closed none = ⟨(closed.map Group.entry).reverse, false⟩ := by
  rw [of, Option.toList_none, List.append_nil]
  rfl

theorem of_some (closed : List Group) (group : Group) :
    of closed (some group) = ⟨group.entry :: (closed.map Group.entry).reverse, true⟩ := by
  rw [of, Option.toList_some, List.map_append, List.reverse_append]
  rfl

theorem feed_of_blank (hcurrent : ∀ group ∈ current, IsPart group.entry.text)
    (hline : clean line = "") (number : Int) :
    ((of closed current).feed number line).2 = of closed current := by
  cases current with
  | none =>
    rw [of_none, feed_fresh, hline]
    rfl
  | some group =>
    have hpart := hcurrent group rfl
    rw [of_some, feed_continued, hline, hpart.stripEnd_join_empty, hpart.isOpen]

/-- A group takes in a further piece as a grouping joins a line. -/
theorem entry_take (hline : clean line ≠ "") (group : Group) (number : Int) :
    (Group.take (some group) ⟨clean line, number⟩).entry
      = ⟨Text.stripEnd (group.entry.text ++ " " ++ clean line), group.entry.number⟩ := by
  rw [Group.entry_take_some, stripEnd_join hline]

theorem isPart_take (hcurrent : ∀ group ∈ current, IsPart group.entry.text)
    (hline : clean line ≠ "") {number : Int}
    (h : (Group.take current ⟨clean line, number⟩).goesOn = true) :
    IsPart (Group.take current ⟨clean line, number⟩).entry.text := by
  rw [← Group.isOpen_entry] at h
  cases current with
  | none => exact isPart_clean h
  | some group =>
    rw [entry_take hline, ← (hcurrent group rfl).clean_join] at h ⊢
    exact isPart_clean h

/-- A line with something on it goes into the open group, or starts one. -/
theorem feed_of_piece (hline : clean line ≠ "") (number : Int) :
    ((of closed current).feed number line).2
      = if (Group.take current ⟨clean line, number⟩).goesOn then
          of closed (some (Group.take current ⟨clean line, number⟩))
        else of (closed ++ [Group.take current ⟨clean line, number⟩]) none := by
  have hempty : (clean line).isEmpty = false := by simpa using hline
  have hfeed : ((of closed current).feed number line).2
      = ⟨(Group.take current ⟨clean line, number⟩).entry :: (closed.map Group.entry).reverse,
          (Group.take current ⟨clean line, number⟩).goesOn⟩ := by
    rw [← Group.isOpen_entry]
    cases current with
    | none =>
      rw [of_none, feed_fresh, hempty]
      rfl
    | some group =>
      rw [of_some, feed_continued, entry_take hline]
  rw [hfeed]
  split
  · next h => rw [of_some, h]
  · next h => rw [of_none, List.map_append, List.reverse_append, Bool.eq_false_iff.mpr h]; rfl

/-- Only the last expression can be open. -/
theorem isOpen_of_mem_dropLast (hclosed : ∀ group ∈ closed, group.goesOn = false) {entry : Entry}
    (h : entry ∈ ((closed ++ current.toList).map Group.entry).dropLast) :
    isOpen entry.text = false := by
  have hmem : entry ∈ closed.map Group.entry := by
    cases current with
    | none =>
      rw [Option.toList_none, List.append_nil] at h
      exact List.mem_of_mem_dropLast h
    | some group =>
      rw [Option.toList_some, List.map_append, List.map_singleton, List.dropLast_concat] at h
      exact h
  obtain ⟨group, hgroup, rfl⟩ := List.mem_map.mp hmem
  rw [Group.isOpen_entry]
  exact hclosed group hgroup

theorem isSome_iff_isOpen (hclosed : ∀ group ∈ closed, group.goesOn = false)
    (hopen : ∀ group ∈ current, group.goesOn = true) :
    current.isSome = true ↔
      ∃ last, ((closed ++ current.toList).map Group.entry).getLast? = some last ∧
        isOpen last.text = true := by
  cases current with
  | none =>
    rw [Option.toList_none, List.append_nil]
    refine iff_of_false Bool.false_ne_true ?_
    rintro ⟨last, hlast, hisOpen⟩
    obtain ⟨group, hgroup, rfl⟩ := List.mem_map.mp (List.mem_of_getLast? hlast)
    rw [Group.isOpen_entry, hclosed group hgroup] at hisOpen
    cases hisOpen
  | some group =>
    rw [Option.toList_some, List.map_append, List.map_singleton, List.getLast?_concat]
    refine iff_of_true rfl ⟨group.entry, rfl, ?_⟩
    rw [Group.isOpen_entry]
    exact hopen group rfl

theorem feedAll_of (hclosed : ∀ group ∈ closed, group.goesOn = false)
    (hopen : ∀ group ∈ current, group.goesOn = true)
    (hcurrent : ∀ group ∈ current, IsPart group.entry.text) (number : Int) (lines : List String) :
    ∃ closed' current', (of closed current).feedAll number lines = of closed' current' ∧
      closed' ++ current'.toList = closed ++ groups current (pieces number lines) ∧
      (∀ group ∈ closed', group.goesOn = false) ∧ ∀ group ∈ current', group.goesOn = true := by
  induction lines generalizing closed current number with
  | nil => exact ⟨closed, current, rfl, rfl, hclosed, hopen⟩
  | cons line lines ih =>
    rw [feedAll, pieces]
    by_cases hline : clean line = ""
    · rw [feed_of_blank hcurrent hline, if_pos (String.isEmpty_iff.mpr hline)]
      exact ih hclosed hopen hcurrent (number + 1)
    · have hempty : ¬ (clean line).isEmpty = true := fun h => hline (String.isEmpty_iff.mp h)
      rw [feed_of_piece hline, if_neg hempty, groups]
      by_cases hgoes : (Group.take current ⟨clean line, number⟩).goesOn = true
      · rw [if_pos hgoes, if_pos hgoes]
        apply ih hclosed
        · rintro _ ⟨⟩
          exact hgoes
        · rintro _ ⟨⟩
          exact isPart_take hcurrent hline hgoes
      · rw [if_neg hgoes, if_neg hgoes, List.append_cons closed _ (groups none _)]
        have hclosed' : ∀ group ∈ closed ++ [Group.take current ⟨clean line, number⟩],
            group.goesOn = false :=
          List.forall_mem_append.mpr ⟨hclosed, by simpa using hgoes⟩
        -- where no group is open, there is nothing to ask of the open group
        refine ih hclosed' ?_ ?_ (number + 1)
        · simp
        · simp

end Grouping

/-- **The lines of a file are grouped, and none is lost or taken twice.** The expressions are the
groups of the pieces: written with single spaces, under the number of the first piece. The groups
share out the pieces in order, so the numbers increase. Only the last expression can open more
parentheses than it closes, and a further line would be joined to it just if it does. -/
theorem entries_eq_groups (lines : List String) :
    entries lines = (groups none (pieces 1 lines)).map Group.entry ∧
    (groups none (pieces 1 lines)).flatMap Group.pieces = pieces 1 lines ∧
    (entries lines).Pairwise (fun entry later => entry.number < later.number) ∧
    (∀ entry ∈ (entries lines).dropLast,
      entry.text.toList.count '(' ≤ entry.text.toList.count ')') ∧
    ((Grouping.empty.feedAll 1 lines).continuing = true ↔
      ∃ last, (entries lines).getLast? = some last ∧
        last.text.toList.count ')' < last.text.toList.count '(') := by
  obtain ⟨closed, current, hrun, hgroups, hclosed, hopen⟩ :=
    @Grouping.feedAll_of [] none (by simp) (by simp) (by simp) 1 lines
  have hentries : entries lines = (closed ++ current.toList).map Group.entry := by
    show (Grouping.feedAll (.of [] none) 1 lines).entries.reverse = _
    rw [hrun, Grouping.of, List.reverse_reverse]
  have hshared := flatMap_groups none (pieces 1 lines)
  rw [Option.toList_none, List.flatMap_nil, List.nil_append] at hshared
  rw [List.nil_append] at hgroups
  have hcontinuing : (Grouping.empty.feedAll 1 lines).continuing = current.isSome := by
    show (Grouping.feedAll (.of [] none) 1 lines).continuing = _
    rw [hrun]
    rfl
  refine ⟨by rw [hentries, hgroups], hshared, ?_, ?_, ?_⟩
  · rw [hentries, hgroups]
    apply pairwise_entry
    rw [hshared]
    exact pairwise_pieces 1 lines
  · intro entry hmem
    rw [hentries] at hmem
    exact Nat.le_of_not_lt (of_decide_eq_false (Grouping.isOpen_of_mem_dropLast hclosed hmem))
  · rw [hcontinuing, hentries, Grouping.isSome_iff_isOpen hclosed hopen]
    simp only [isOpen, decide_eq_true_eq]

/-- Blank lines and comments are left out, an expression may be closed too often, and the last one
may stay open. -/
example : entries ["", "f (", " ;; (", "  x ) ) ;; )", "y", "((", ")"]
    = [⟨"f ( x ) )", 2⟩, ⟨"y", 5⟩, ⟨"(( )", 6⟩] := by
  decide +kernel

end Script

end CallByValue
