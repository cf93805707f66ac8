import CallByValue.Proofs.Tokenization
/-!
# Lines that are joined by blanks

A line that goes on in the next one is joined to it by a blank. Cutting the joined line comes to
cutting both: no word goes across the blank, so the tokens of the first line are followed by those of
the second, as far behind as it stands. The end of input of the first line is gone. A character that
belongs to no token is found where it was found before, in the first line if there is one in both.
-/

namespace CallByValue

namespace Token

variable {pos : Nat} {cs : List Char} {tokens : List Token}

theorem Cuts.scan_eq (h : Cuts pos cs tokens) : scan pos cs = .ok tokens := by
  induction h with
  | nil pos => exact scan_nil pos
  | blank hblank _ ih => rw [scan_blank hblank, ih]
  | mark hmark _ ih =>
    rw [scan_punctuation (punctuation?_eq_some_iff.mpr hmark), ih]
    rfl
  | word hword hstop _ ih =>
    rw [scan_word hword hstop, ih]
    rfl

theorem Cuts.moved (h : Cuts pos cs tokens) (distance : Nat) :
    Cuts (pos + distance) cs (tokens.map (Token.moved distance)) := by
  apply cuts_of_scan
  rw [scan_moved, h.scan_eq]
  rfl

theorem Cuts.blanks {front : List Char} (hfront : ∀ c ∈ front, Text.isBlank c = true)
    (h : Cuts (pos + front.length) cs tokens) : Cuts pos (front ++ cs) tokens := by
  induction front generalizing pos with
  | nil => exact h
  | cons c front ih =>
    rw [List.forall_mem_cons] at hfront
    rw [List.length_cons, Nat.add_comm front.length, ← Nat.add_assoc] at h
    exact .blank hfront.1 (ih hfront.2 h)

/-- What is cut up to the end of input goes on with whatever cannot make a last word longer. -/
theorem Cuts.append {body later : List Token} {stop : Nat} {rest : List Char}
    (h : Cuts pos cs (body ++ [⟨.eof, stop⟩])) (hrest : NoLetter rest)
    (hlater : Cuts (pos + cs.length) rest later) : Cuts pos (cs ++ rest) (body ++ later) := by
  generalize htokens : body ++ [⟨.eof, stop⟩] = tokens at h
  induction h generalizing body with
  | nil pos =>
    have hnil : body = [] := by simpa using congrArg List.length htokens
    subst hnil
    exact hlater
  | @blank pos c cs tokens hblank _ ih =>
    rw [List.length_cons, Nat.add_comm cs.length, ← Nat.add_assoc] at hlater
    exact .blank hblank (ih hlater htokens)
  | @mark pos c cs lexeme tokens hmark hcuts ih =>
    rw [List.length_cons, Nat.add_comm cs.length, ← Nat.add_assoc] at hlater
    cases body with
    | nil => exact absurd (List.cons.inj htokens).2.symm hcuts.ne_nil
    | cons token body =>
      obtain ⟨rfl, hbody⟩ := List.cons.inj htokens
      exact .mark hmark (ih hlater hbody)
  | @word pos name cs tokens hword hstop hcuts ih =>
    rw [List.length_append, ← Nat.add_assoc] at hlater
    rw [List.append_assoc]
    cases body with
    | nil => exact absurd (List.cons.inj htokens).2.symm hcuts.ne_nil
    | cons token body =>
      obtain ⟨rfl, hbody⟩ := List.cons.inj htokens
      exact .word hword (hstop.append hrest) (ih hlater hbody)

end Token

section Joined

variable {a w b : String}

theorem toList_joined (a w b : String) :
    (a ++ w ++ b).toList = a.toList ++ (w.toList ++ b.toList) := by
  rw [String.toList_append, String.toList_append, List.append_assoc]

theorem tokenize_of_cuts {expr : String} {tokens : List Token}
    (h : Token.Cuts 0 expr.toList tokens) : tokenize expr = .ok tokens := by
  rw [tokenize, h.scan_eq]

theorem tokenize_joined (hne : w ≠ "") (hblank : ∀ c ∈ w.toList, Text.isBlank c = true)
    {front back : List Token} {stop : Nat} (ha : tokenize a = .ok (front ++ [⟨.eof, stop⟩]))
    (hb : tokenize b = .ok back) :
    tokenize (a ++ w ++ b) = .ok (front ++ back.map (Token.moved (a.length + w.length))) := by
  have hstop : Token.NoLetter (w.toList ++ b.toList) := by
    obtain ⟨c, cs, hw⟩ := List.exists_cons_of_ne_nil (mt String.toList_eq_nil_iff.mp hne)
    rw [hw] at hblank ⊢
    exact .cons (Token.isLetter_eq_false_of_isBlank (hblank c List.mem_cons_self)) _
  have hlater := (cuts_of_tokenize hb).moved (a.toList.length + w.toList.length)
  rw [← Nat.add_assoc] at hlater
  have hjoined := (cuts_of_tokenize ha).append hstop (.blanks hblank hlater)
  rw [← toList_joined, String.length_toList, String.length_toList] at hjoined
  exact tokenize_of_cuts hjoined

theorem exists_unrecognized_left {fault : Fault} (ha : tokenize a = .error fault) (w b : String) :
    ∃ c pos, tokenize a = .error (.diagnostic (.unrecognized a c pos)) ∧
      tokenize (a ++ w ++ b) = .error (.diagnostic (.unrecognized (a ++ w ++ b) c pos)) := by
  obtain ⟨front, c, back, hexpr, hfront, hc, rfl⟩ := exists_unrecognized_of_tokenize ha
  have hline : (a ++ w ++ b).toList = front ++ c :: (back ++ (w.toList ++ b.toList)) := by
    rw [toList_joined, hexpr, List.append_assoc, List.cons_append]
  exact ⟨c, front.length, ha, tokenize_of_unrecognized hline hfront hc⟩

theorem exists_unrecognized_right (hblank : ∀ c ∈ w.toList, Text.isBlank c = true)
    {tokens : List Token} (ha : tokenize a = .ok tokens) {fault : Fault}
    (hb : tokenize b = .error fault) :
    ∃ c pos, tokenize b = .error (.diagnostic (.unrecognized b c pos)) ∧
      tokenize (a ++ w ++ b) = .error (.diagnostic (.unrecognized (a ++ w ++ b) c
        (pos + (a.length + w.length)))) := by
  obtain ⟨front, c, back, hexpr, hfront, hc, rfl⟩ := exists_unrecognized_of_tokenize hb
  have hline : (a ++ w ++ b).toList = a.toList ++ (w.toList ++ front) ++ c :: back := by
    rw [toList_joined, hexpr, List.append_assoc, List.append_assoc]
  have hbefore : ∀ d ∈ a.toList ++ (w.toList ++ front), Token.isRecognized d = true := by
    refine List.forall_mem_append.mpr ⟨exists_tokenize_iff.mp ⟨tokens, ha⟩, ?_⟩
    refine List.forall_mem_append.mpr ⟨?_, hfront⟩
    exact fun d hd => Token.isRecognized_iff.mpr (.inl (hblank d hd))
  have hplace : (a.toList ++ (w.toList ++ front)).length = front.length + (a.length + w.length) := by
    rw [List.length_append, List.length_append, String.length_toList, String.length_toList]
    omega
  refine ⟨c, front.length, hb, ?_⟩
  rw [tokenize_of_unrecognized hline hbefore hc, hplace]

end Joined

/-- **Cutting goes through blanks.** Two lines with a blank or more between them are cut just when
both of them are, into the tokens of the first up to its end of input and those of the second as far
behind as it stands. If the whole is not cut, the character to blame is the one that is to blame in
the first line, or else the one in the second, as far behind. -/
theorem tokenize_join_blanks (a w b : String) (hne : w ≠ "")
    (hblank : ∀ c ∈ w.toList, Text.isBlank c = true) :
    (∀ tokens, tokenize (a ++ w ++ b) = .ok tokens ↔
      ∃ front back, tokenize a = .ok (front ++ [⟨.eof, a.length⟩]) ∧ tokenize b = .ok back ∧
        tokens = front ++ back.map (Token.moved (a.length + w.length))) ∧
    ∀ fault, tokenize (a ++ w ++ b) = .error fault →
      ∃ c pos, fault = .diagnostic (.unrecognized (a ++ w ++ b) c pos) ∧
        (tokenize a = .error (.diagnostic (.unrecognized a c pos)) ∨
          (∃ tokens, tokenize a = .ok tokens) ∧
          ∃ pos', tokenize b = .error (.diagnostic (.unrecognized b c pos')) ∧
            pos = pos' + (a.length + w.length)) := by
  cases ha : tokenize a with
  | error fault =>
    obtain ⟨c, pos, hleft, hjoined⟩ := exists_unrecognized_left ha w b
    rw [hjoined]
    refine ⟨fun tokens => ⟨by rintro ⟨⟩, by rintro ⟨_, _, ⟨⟩, -⟩⟩, ?_⟩
    rintro _ ⟨⟩
    exact ⟨c, pos, rfl, .inl (ha.symm.trans hleft)⟩
  | ok tokens =>
    obtain ⟨front, rfl, -⟩ := tokenize_eq_ok ha
    cases hb : tokenize b with
    | error fault =>
      obtain ⟨c, pos, hright, hjoined⟩ := exists_unrecognized_right hblank ha hb
      rw [hjoined]
      refine ⟨fun tokens => ⟨by rintro ⟨⟩, by rintro ⟨_, _, -, ⟨⟩, -⟩⟩, ?_⟩
      rintro _ ⟨⟩
      exact ⟨c, _, rfl, .inr ⟨⟨_, rfl⟩, pos, hb.symm.trans hright, rfl⟩⟩
    | ok back =>
      rw [tokenize_joined hne hblank ha hb]
      refine ⟨fun tokens => ⟨?_, ?_⟩, by rintro _ ⟨⟩⟩
      · rintro ⟨⟩
        exact ⟨front, back, rfl, rfl, rfl⟩
      · rintro ⟨front', back', hfront, hback, rfl⟩
        obtain rfl := List.append_cancel_right (Except.ok.inj hfront)
        obtain rfl := Except.ok.inj hback
        rfl

/-- Two words that would be one without the blanks between them, and a second line that cannot be
cut. -/
theorem tokenize_join_blanks_words :
    tokenize ("(\\x. x" ++ "\t\n" ++ "xy)")
      = .ok [⟨.lparen, 0⟩, ⟨.lambda, 1⟩, ⟨.ident "x", 2⟩, ⟨.dot, 3⟩, ⟨.ident "x", 5⟩,
          ⟨.ident "xy", 8⟩, ⟨.rparen, 10⟩, ⟨.eof, 11⟩] ∧
    ∃ c pos, tokenize ("f" ++ " " ++ "x?")
        = .error (.diagnostic (.unrecognized ("f" ++ " " ++ "x?") c (pos + 2))) ∧
      tokenize "x?" = .error (.diagnostic (.unrecognized "x?" c pos)) := by
  constructor
  · exact ((tokenize_join_blanks "(\\x. x" "\t\n" "xy)" (by decide) (List.all_eq_true.mp rfl)).1 _).mpr
      ⟨[⟨.lparen, 0⟩, ⟨.lambda, 1⟩, ⟨.ident "x", 2⟩, ⟨.dot, 3⟩, ⟨.ident "x", 5⟩],
        [⟨.ident "xy", 0⟩, ⟨.rparen, 2⟩, ⟨.eof, 3⟩], by decide +kernel, by decide +kernel, rfl⟩
  · have hline : tokenize ("f" ++ " " ++ "x?")
        = .error (.diagnostic (.unrecognized "f x?" '?' 3)) := by
      decide +kernel
    have hfirst : tokenize "f" = .ok [⟨.ident "f", 0⟩, ⟨.eof, 1⟩] := by decide +kernel
    obtain ⟨c, pos, hfault, hleft | ⟨-, pos', hright, rfl⟩⟩ :=
      (tokenize_join_blanks "f" " " "x?" (by decide) (List.all_eq_true.mp rfl)).2 _ hline
    · cases hfirst.symm.trans hleft
    · exact ⟨c, pos', hline.trans (congrArg Except.error hfault), hright⟩

end CallByValue
