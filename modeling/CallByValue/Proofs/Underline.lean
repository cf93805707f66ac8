import CallByValue.Proofs.Diagnostic
import CallByValue.Underline
/-!
# The part that is underlined

A diagnostic gives its part by two positions, and the expression is cut at them by rules that also
make sense of positions outside of it. Of a part that lies within the expression nothing is cut off:
the three pieces are what stands before the part, the part, and what stands behind it, and the caret
stands below the first character of the part. The end of input is a part without characters, behind
the expression, and has a caret all the same.
-/

namespace CallByValue

namespace Diagnostic

variable {d : Diagnostic}

theorem row_eq {width : Nat} {count : Int} (h : count.natAbs ≤ width) (c : Char) :
    row width count c = .ok ⟨c, count.toNat⟩ := by
  rw [row, if_pos h]

theorem rowText_eq {width : Nat} {run : Text.Run} (h : run.count ≤ width) :
    rowText width run = .ok (String.ofList (Text.Run.expand [run])) := by
  rw [rowText, if_pos (by simp [h])]

theorem underlined_eq (hnonneg : 0 ≤ d.start) (hstart : d.start ≤ d.expr.length)
    (hstop : d.stop ≤ d.expr.length + 1) (style : Text.Style) (colour : Text.Colour) :
    d.underlined style colour
      = .ok ("  " ++ String.ofList (Text.upTo d.start d.expr.toList) ++
          style.boldIn colour
            (String.ofList (Text.between d.start d.underlineStop d.expr.toList)) ++
          String.ofList (Text.startingAt d.underlineStop d.expr.toList) ++ "\n" ++
          "  " ++ String.ofList (List.replicate d.start.toNat ' ') ++
          style.boldIn colour
            ("^" ++ String.ofList (List.replicate (d.underlineStop - d.start - 1).toNat '~'))) := by
  have hlength : d.expr.toList.length = d.expr.length := String.length_toList
  have hblanks : d.start.natAbs ≤ d.expr.toList.length := by omega
  have htildes : (d.underlineStop - d.start - 1).natAbs ≤ d.expr.toList.length := by
    rw [underlineStop]
    omega
  have hexpand (run : Text.Run) : Text.Run.expand [run] = List.replicate run.count run.char := by
    simp [Text.Run.expand]
  rw [Diagnostic.underlined, row_eq hblanks, row_eq htildes]
  simp only [bind, Except.bind]
  rw [rowText_eq (by dsimp only; omega), rowText_eq (by dsimp only; omega), hexpand, hexpand]
  rfl

theorem Within.underlined (h : d.Within) (style : Text.Style) (colour : Text.Colour) :
    ∃ text, d.underlined style colour = .ok text :=
  ⟨_, underlined_eq h.nonneg h.start_le h.stop_le style colour⟩

/-! ### Three pieces -/

section Pieces

variable (front : List Char) {part back : List Char} (hback : part = [] → back = [])

include hback

/-- One place is counted for a part without characters, and that is one behind the expression. -/
theorem length_of_part :
    min (front.length + max 1 part.length) (front ++ part ++ back).length
        = (front ++ part).length ∧
      front.length + max 1 part.length ≤ (front ++ part ++ back).length + 1 := by
  rw [List.length_append, List.length_append]
  by_cases hpart : part = []
  · subst hpart
    rw [hback rfl]
    simp
  · have hpos := List.length_pos_iff.mpr hpart
    omega

theorem pieces_eq :
    Text.upTo front.length (front ++ part ++ back) = front ∧
    Text.between front.length (front.length + max 1 part.length : Nat) (front ++ part ++ back)
      = part ∧
    Text.startingAt (front.length + max 1 part.length : Nat) (front ++ part ++ back) = back := by
  obtain ⟨hcut, -⟩ := length_of_part front hback
  have hfirst : min front.length (front ++ part ++ back).length = front.length := by
    rw [List.length_append, List.length_append]
    omega
  refine ⟨?_, ?_, ?_⟩
  · rw [Text.upTo, Text.place_natCast, hfirst, List.append_assoc, List.take_left]
  · rw [Text.between, Text.upTo, Text.place_natCast, Text.place_natCast, hcut, hfirst,
      List.take_left, List.drop_left]
  · rw [Text.startingAt, Text.place_natCast, hcut, List.drop_left]

end Pieces

/-- A part of an expression in colour, and below it a caret and a tilde for each further
character. -/
def drawing (style : Text.Style) (colour : Text.Colour) (front part back : List Char) : String :=
  "  " ++ String.ofList front ++ style.boldIn colour (String.ofList part) ++ String.ofList back ++
    "\n" ++ "  " ++ String.ofList (List.replicate front.length ' ') ++
    style.boldIn colour ("^" ++ String.ofList (List.replicate (max 1 part.length - 1) '~'))

/-- The diagnostic blames the part of the expression between `front` and `back`, and this part is
drawn. A part without characters is the end of input. -/
structure Underlines (d : Diagnostic) (expr : String) (front part back : List Char) : Prop where
  expr_eq : d.expr = expr
  split : expr.toList = front ++ part ++ back
  start_eq : d.start = front.length
  bounds : 0 ≤ d.start ∧ d.start ≤ expr.length ∧ d.start < d.stop
  stop_eq : d.stop = d.start + max 1 part.length
  at_end : part = [] → d.start = expr.length
  drawn : ∀ style colour,
    d.underlined style colour = .ok (drawing style colour front part back)

theorem underlines_of_split {front part back : List Char} {expr : String} (hexpr : d.expr = expr)
    (hsplit : expr.toList = front ++ part ++ back) (hback : part = [] → back = [])
    (hstart : d.start = front.length) (hstop : d.stop = front.length + max 1 part.length) :
    d.Underlines expr front part back := by
  subst hexpr
  have hlength : d.expr.length = front.length + part.length + back.length := by
    rw [← String.length_toList, hsplit, List.length_append, List.length_append]
  obtain ⟨-, hfits⟩ := length_of_part front hback
  rw [← hsplit, String.length_toList] at hfits
  have hlast : d.underlineStop = (front.length + max 1 part.length : Nat) := by
    rw [underlineStop, hstart, hstop]
    omega
  refine ⟨rfl, hsplit, hstart, ⟨by omega, by omega, by omega⟩, by omega, ?_, ?_⟩
  · intro hpart
    rw [hstart, hlength, hpart, hback hpart]
    simp
  · intro style colour
    obtain ⟨hbefore, hpart, hbehind⟩ := pieces_eq front hback
    have htildes : (d.underlineStop - d.start - 1).toNat = max 1 part.length - 1 := by
      rw [hlast, hstart]
      omega
    rw [underlined_eq (by omega) (by omega) (by omega), htildes, hlast, hstart, hsplit, hbefore,
      hpart, hbehind, Int.toNat_natCast]
    rfl

end Diagnostic

end CallByValue
