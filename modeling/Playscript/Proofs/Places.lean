import Playscript.Text.Place

/-!
# Counting lines and columns

Lines are counted by LF alone, and columns from the last LF. Counting can go on from any place as it
does from the first.
-/

namespace Playscript

variable {a : Text}

namespace Place

theorem line_afterText (place : Place) (text : Text) :
    (place.afterText text).line = place.line + text.count '\n' := by
  induction text generalizing place with
  | nil => rfl
  | cons c text ih =>
    have hstep : place.afterText (c :: text) = (place.next c).afterText text := rfl
    rw [hstep, ih, next]
    by_cases hc : c = '\n'
    · rw [if_pos hc, hc, List.count_cons_self]
      change place.line + 1 + _ = _
      omega
    · rw [if_neg hc, List.count_cons_of_ne hc]

theorem afterText_add (text : Text) (place : Place) (count : Nat) :
    afterText ⟨place.line + count, place.column⟩ text =
      ⟨(place.afterText text).line + count, (place.afterText text).column⟩ := by
  induction text generalizing place with
  | nil => rfl
  | cons c text ih =>
    have hstep : next ⟨place.line + count, place.column⟩ c =
        ⟨(place.next c).line + count, (place.next c).column⟩ := by
      unfold next
      by_cases hc : c = '\n'
      · simp only [hc, if_true, Nat.add_right_comm]
      · simp only [hc, if_false]
    change afterText (next _ c) text = _
    rw [hstep, ih]
    rfl

theorem afterText_of_ends_lf (place : Place) (h : a.getLast? = some '\n') :
    place.afterText a = ⟨place.line + a.count '\n', 1⟩ := by
  obtain ⟨front, rfl⟩ := List.getLast?_eq_some_iff.mp h
  have hlast : place.afterText (front ++ ['\n']) = (place.afterText front).next '\n' :=
    List.foldl_append
  have hline := line_afterText place (front ++ ['\n'])
  rw [hlast] at hline ⊢
  rw [← hline]
  rfl

/-- After a text that ends with LF the columns are as they would be without it. -/
theorem ofOffset_append (h : a.getLast? = some '\n') (b : Text) (offset : Nat) :
    ofOffset (a ++ b) (a.length + offset) =
      ⟨(ofOffset b offset).line + a.count '\n', (ofOffset b offset).column⟩ := by
  have htake : (a ++ b).take (a.length + offset) = a ++ b.take offset :=
    List.take_length_add_append offset
  have hafter : first.afterText (a ++ b.take offset) =
      (first.afterText a).afterText (b.take offset) := List.foldl_append
  have hplace : afterText ⟨first.line + a.count '\n', 1⟩ (b.take offset) =
      ⟨(first.afterText (b.take offset)).line + a.count '\n',
        (first.afterText (b.take offset)).column⟩ := afterText_add _ first _
  have hover : a.length + offset - (a ++ b).length = offset - b.length := by
    rw [List.length_append]
    omega
  rw [ofOffset, htake, hafter, afterText_of_ends_lf first h, hover]
  simp only [hplace]
  rfl

end Place

end Playscript
