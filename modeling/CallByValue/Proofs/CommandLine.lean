import CallByValue.CommandLine
import CallByValue.Proofs.Ending
import CallByValue.Proofs.Writable
/-!
# A limit that is given can be written

What is read as a number has no more digits than are ever written, so the number can be written too.
The only number on the command line is the limit. Nothing but its own option sets it, and that option
reads it as a number; so whatever is given as a limit can be blamed.
-/

namespace CallByValue

namespace Text

theorem digitValue?_lt {c : Char} {d : Nat} (h : digitValue? c = some d) : d < 10 := by
  obtain ⟨base, hbase, rfl⟩ := Option.map_eq_some_iff.mp h
  have hrange := List.find?_some hbase
  simp only [Bool.and_eq_true, decide_eq_true_eq] at hrange
  omega

theorem digitRow_lt {cs : List Char} {digits : List Nat} (h : digitRow cs = some digits) :
    ∀ d ∈ digits, d < 10 := by
  have hcons {c : Char} {cs : List Char} {digits : List Nat}
      (ih : ∀ digits, digitRow cs = some digits → ∀ d ∈ digits, d < 10)
      (h : (do let d ← digitValue? c; let ds ← digitRow cs; return d :: ds) = some digits) :
      ∀ d ∈ digits, d < 10 := by
    obtain ⟨d, hd, h⟩ := Option.bind_eq_some_iff.mp h
    obtain ⟨ds, hds, h⟩ := Option.bind_eq_some_iff.mp h
    cases h
    exact List.forall_mem_cons.mpr ⟨digitValue?_lt hd, ih ds hds⟩
  induction cs using digitRow.induct generalizing digits with
  | case1 =>
    cases h
    exact List.forall_mem_nil _
  | case2 c cs ih => exact hcons (fun _ => ih) h
  | case3 c cs hunderscore ih =>
    rw [digitRow] at h
    · exact hcons (fun _ => ih) h
    · exact hunderscore

theorem ofDigits_lt {digits : List Nat} (h : ∀ d ∈ digits, d < 10) :
    ofDigits digits < 10 ^ digits.length := by
  have hfold (n k : Nat) (hn : n < 10 ^ k) :
      digits.foldl (fun n d => 10 * n + d) n < 10 ^ (k + digits.length) := by
    induction digits generalizing n k with
    | nil => exact hn
    | cons d digits ih =>
      obtain ⟨hd, hdigits⟩ := List.forall_mem_cons.mp h
      have hnext : 10 * n + d < 10 ^ (k + 1) := by
        rw [Nat.pow_succ]
        omega
      rw [List.foldl_cons, List.length_cons, Nat.add_comm digits.length, ← Nat.add_assoc]
      exact ih hdigits (10 * n + d) (k + 1) hnext
  rw [← Nat.zero_add digits.length]
  exact hfold 0 0 Nat.one_pos

theorem natural?_lt {cs : List Char} {n : Nat} (h : natural? cs = some n) : n < 10 ^ maxDigits := by
  cases cs with
  | nil => cases h
  | cons c cs =>
    obtain ⟨d, hd, h⟩ := Option.bind_eq_some_iff.mp h
    obtain ⟨ds, hds, h⟩ := Option.bind_eq_some_iff.mp h
    split at h
    · cases h
    · next hshort =>
      cases h
      have hdigits : ∀ d' ∈ d :: ds, d' < 10 :=
        List.forall_mem_cons.mpr ⟨digitValue?_lt hd, digitRow_lt hds⟩
      have hlength : (d :: ds).length ≤ maxDigits := by
        rw [List.length_cons]
        omega
      exact Nat.lt_of_lt_of_le (ofDigits_lt hdigits) (Nat.pow_le_pow_right (by decide) hlength)

theorem writable_of_integer? {s : String} {n : Int} (h : integer? s = some n) : Writable n := by
  rw [integer?] at h
  split at h
  · obtain ⟨m, hm, rfl⟩ := Option.map_eq_some_iff.mp h
    obtain ⟨k, hk, ⟨⟩⟩ := Option.bind_eq_some_iff.mp hm
    rw [Writable, Int.natAbs_neg]
    exact natural?_lt hk
  all_goals
    obtain ⟨k, hk, rfl⟩ := Option.map_eq_some_iff.mp h
    exact natural?_lt hk

end Text

namespace CommandLine

/-- The limit can be written, if the command line has given one so far. -/
def Reading.Legible (reading : Reading) : Prop :=
  ∀ n, reading.settings.maxSteps = some (.given n) → Text.Writable n

variable {reading next : Reading} {flag : Flag} {words rest : List Word}

theorem setFlag_legible (h : reading.Legible) (hset : setFlag flag reading = .ok next) :
    next.Legible := by
  cases flag with
  | help => cases hset
  | _ =>
    cases hset
    exact h

theorem setFlags_legible {flags : List Flag} (h : reading.Legible)
    (hset : setFlags flags reading = .ok next) : next.Legible := by
  induction flags generalizing reading with
  | nil =>
    cases hset
    exact h
  | cons flag flags ih =>
    obtain ⟨first, hfirst, hrest⟩ := exists_of_except_bind_eq_ok hset
    exact ih (setFlag_legible h hfirst) hrest

/-- The option for the limit reads a number; the others leave the limit as it is. -/
theorem setValue_legible {value : Value String} (h : reading.Legible)
    (hset : setValue flag value reading = .ok next) : next.Legible := by
  cases flag with
  | maxSteps =>
    cases value with
    | blank =>
      cases hset
      rintro n ⟨⟩
    | given text =>
      rw [setValue] at hset
      cases hinteger : Text.integer? text with
      | none =>
        rw [hinteger] at hset
        cases hset
      | some k =>
        rw [hinteger] at hset
        cases hset
        rintro n ⟨⟩
        exact Text.writable_of_integer? hinteger
  | _ =>
    cases hset
    exact h

theorem takeOption_legible {before : List Flag} (h : reading.Legible)
    (htake : takeOption before flag words reading = .ok (next, rest)) : next.Legible := by
  rw [takeOption] at htake
  split at htake
  · obtain ⟨⟨value, later⟩, -, htake⟩ := exists_of_except_bind_eq_ok htake
    obtain ⟨first, hfirst, htake⟩ := exists_of_except_bind_eq_ok htake
    obtain ⟨second, hsecond, ⟨⟩⟩ := exists_of_except_bind_eq_ok htake
    exact setValue_legible (setFlags_legible h hfirst) hsecond
  · obtain ⟨first, hfirst, htake⟩ := exists_of_except_bind_eq_ok htake
    obtain ⟨second, hsecond, ⟨⟩⟩ := exists_of_except_bind_eq_ok htake
    exact setFlag_legible (setFlags_legible h hfirst) hsecond

theorem consumeOption_legible {word : OptionWord} (h : reading.Legible)
    (hconsume : consumeOption word words reading = .ok (next, rest)) : next.Legible := by
  rw [consumeOption] at hconsume
  split at hconsume
  · exact takeOption_legible h hconsume
  · split at hconsume
    · cases hconsume
    · obtain ⟨chain, -, hconsume⟩ := exists_of_except_bind_eq_ok hconsume
      split at hconsume
      · obtain ⟨first, hfirst, hconsume⟩ := exists_of_except_bind_eq_ok hconsume
        obtain ⟨second, hsecond, ⟨⟩⟩ := exists_of_except_bind_eq_ok hconsume
        exact setValue_legible (setFlags_legible h hfirst) hsecond
      · exact takeOption_legible h hconsume

theorem takeFile_legible (h : reading.Legible) (words : List Word) :
    (takeFile reading words).1.Legible := by
  rw [takeFile.eq_def]
  split <;> exact h

theorem finish_legible (h : reading.Legible) (words : List Word) :
    (finish reading words).Legible := by
  rw [finish]
  by_cases htaken : reading.fileTaken = true
  · rw [if_pos htaken]
    exact h
  · rw [if_neg htaken]
    exact takeFile_legible h words

theorem Reading.Legible.withExtras (h : reading.Legible) (extras : List String) :
    { reading with extras }.Legible :=
  h

theorem work_legible {bound : Nat} (h : reading.Legible)
    (hwork : work bound reading words = .ok next) : next.Legible := by
  induction bound generalizing reading words with
  | zero =>
    cases hwork
    exact h
  | succ bound ih =>
    unfold work at hwork
    split at hwork
    · cases hwork
      exact finish_legible h words
    · split at hwork
      · obtain ⟨⟨first, later⟩, hfirst, hwork⟩ := exists_of_except_bind_eq_ok hwork
        exact ih (consumeOption_legible h hfirst) hwork
      · exact ih (h.withExtras _) hwork
      · split at hwork
        · exact ih (h.withExtras _) hwork
        · exact ih (takeFile_legible h _) hwork
      · cases hwork
        exact finish_legible h []

theorem writable_of_parse {arguments : List String} {settings : Settings}
    (h : parse arguments = .ok settings) {n : Int} (hn : settings.maxSteps = some (.given n)) :
    Text.Writable n := by
  obtain ⟨words, -, h⟩ := exists_of_except_bind_eq_ok h
  obtain ⟨reading, hwork, h⟩ := exists_of_except_bind_eq_ok h
  split at h
  · cases h
    exact work_legible (by rintro n ⟨⟩) hwork n hn
  · cases h

end CommandLine

end CallByValue
