import Mathlib.Algebra.Ring.Nat
import Playscript.Proofs.FirstLine

/-!
# All lines of a text

A text is divided into physical lines by taking the first line of what is left until nothing is
left. A break at the very end ends the last line and begins no other. An offset is named by the line
on which it stands and by its column there.
-/

namespace Playscript

namespace Text

def physicalLines : Text → List PhysicalLine
  | [] => []
  | c :: rest =>
    PhysicalLine.ofText (c :: rest) ::
      physicalLines ((c :: rest).drop (PhysicalLine.ofText (c :: rest)).size)
termination_by text => text.length
decreasing_by
  have hpos := PhysicalLine.size_pos (List.cons_ne_nil c rest)
  simp only [List.length_drop, List.length_cons]
  omega

def lineContents (text : Text) : List Text := text.physicalLines.map PhysicalLine.content

/-- The offset stands on the line with this index, after `column` of its characters. -/
def PointsAt (text : Text) (offset index column : Nat) : Prop :=
  ∃ before line after, text.physicalLines = before ++ line :: after ∧ before.length = index ∧
    column ≤ line.content.length ∧ offset = (before.map PhysicalLine.size).sum + column

variable {text rest : Text} {line : PhysicalLine}

@[simp] theorem physicalLines_nil : physicalLines [] = [] := by
  simp [physicalLines]

theorem physicalLines_of_opens (h : line.Opens text rest) (hne : text ≠ []) :
    text.physicalLines = line :: rest.physicalLines := by
  have hfirst := h.ofText_eq
  have hdrop : text.drop line.size = rest := by
    rw [h.text_eq, ← PhysicalLine.text_length, List.drop_left]
  obtain ⟨c, tail, rfl⟩ := List.exists_cons_of_ne_nil hne
  rw [physicalLines, hfirst, hdrop]

theorem lineContents_of_opens (h : line.Opens text rest) (hne : text ≠ []) :
    text.lineContents = line.content :: rest.lineContents := by
  rw [lineContents, physicalLines_of_opens h hne, List.map_cons, lineContents]

theorem lineContents_eq_nil_iff : text.lineContents = [] ↔ text = [] := by
  constructor
  · intro h
    by_contra hne
    rw [lineContents_of_opens (PhysicalLine.opens_ofText text) hne] at h
    cases h
  · rintro rfl
    simp [lineContents]

/-- What holds of the empty text, and of a text if it holds of what follows the first line. -/
@[elab_as_elim] theorem line_induction {motive : Text → Prop} (nil : motive [])
    (line : ∀ (line : PhysicalLine) (text rest : Text), text ≠ [] → line.Opens text rest →
      motive rest → motive text) (text : Text) : motive text := by
  induction hlength : text.length using Nat.strongRecOn generalizing text with
  | ind length ih =>
    by_cases hne : text = []
    · rw [hne]
      exact nil
    · have hpos := PhysicalLine.size_pos hne
      have hdrop : (text.drop (PhysicalLine.ofText text).size).length < length := by
        have hlt := List.length_pos_iff.mpr hne
        rw [List.length_drop]
        omega
      exact line _ text _ hne (PhysicalLine.opens_ofText text) (ih _ hdrop _ rfl)

theorem pointsAt_first (h : line.Opens text rest) (hne : text ≠ []) {column : Nat}
    (hc : column ≤ line.content.length) : text.PointsAt column 0 column :=
  ⟨[], line, rest.physicalLines, physicalLines_of_opens h hne, rfl, hc, by simp⟩

/-- A place on a later line is a place in what follows the first line. -/
theorem PointsAt.later {offset index column : Nat} (hp : rest.PointsAt offset index column)
    (h : line.Opens text rest) (hne : text ≠ []) :
    text.PointsAt (line.size + offset) (index + 1) column := by
  obtain ⟨before, found, after, hlines, rfl, hc, rfl⟩ := hp
  refine ⟨line :: before, found, after, ?_, rfl, hc, ?_⟩
  · rw [physicalLines_of_opens h hne, hlines, List.cons_append]
  · rw [List.map_cons, List.sum_cons, Nat.add_assoc]

end Text

end Playscript
