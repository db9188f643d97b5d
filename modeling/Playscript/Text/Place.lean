import Playscript.Text.Basic

/-!
# Lines and columns

A place is a line and a column, both counted from one. Only LF starts a new line here, so a CR
takes a column like any other character.
-/

namespace Playscript

structure Place where
  line : Nat
  column : Nat
  deriving DecidableEq, Repr

namespace Place

def first : Place := ⟨1, 1⟩

def next (place : Place) (c : Char) : Place :=
  if c = '\n' then ⟨place.line + 1, 1⟩ else ⟨place.line, place.column + 1⟩

def afterText (place : Place) (text : Text) : Place := text.foldl next place

/-- The place of an offset. Past the end of the text the columns go on. -/
def ofOffset (source : Text) (offset : Nat) : Place :=
  let place := first.afterText (source.take offset)
  ⟨place.line, place.column + (offset - source.length)⟩

theorem one_le_afterText (text : Text) (place : Place) (hl : 1 ≤ place.line)
    (hc : 1 ≤ place.column) :
    1 ≤ (place.afterText text).line ∧ 1 ≤ (place.afterText text).column := by
  induction text generalizing place with
  | nil => exact ⟨hl, hc⟩
  | cons c text ih => refine ih (place.next c) ?_ ?_ <;> unfold next <;> split <;> simp [hl]

theorem one_le_ofOffset (source : Text) (offset : Nat) :
    1 ≤ (ofOffset source offset).line ∧ 1 ≤ (ofOffset source offset).column :=
  have h := one_le_afterText (source.take offset) first (by decide) (by decide)
  ⟨h.1, Nat.le_add_right_of_le h.2⟩

end Place

end Playscript
