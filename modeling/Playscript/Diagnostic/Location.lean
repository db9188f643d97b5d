import Playscript.Span
import Playscript.Text.Place

/-!
# Locations

A location is a span together with the line and the column where it starts.
-/

namespace Playscript

structure Location extends Span where
  line : Nat
  column : Nat
  one_le_line : 1 ≤ line
  one_le_column : 1 ≤ column
  deriving DecidableEq, Repr

inductive LocationError where
  | negativeStart (start : Int)
  | reversed (start stop : Int)
  | line (line : Int)
  | column (column : Int)
  deriving DecidableEq, Repr

def LocationError.message : LocationError → Text
  | negativeStart start => "SourceSpan.start must be >= 0, got ".toList ++ .ofInt start
  | reversed start stop =>
    "SourceSpan.end (".toList ++ .ofInt stop ++ ") must be >= start (".toList ++ .ofInt start ++
      [')']
  | line n => "SourceSpan.line must be >= 1 (1-indexed), got ".toList ++ .ofInt n
  | column n => "SourceSpan.column must be >= 1 (1-indexed), got ".toList ++ .ofInt n

namespace Location

/-- The bounds are checked first, then the line, then the column. -/
def ofNumbers (start stop line column : Int) : Except LocationError Location :=
  if _ : start < 0 then .error (.negativeStart start)
  else if _ : stop < start then .error (.reversed start stop)
  else if _ : line < 1 then .error (.line line)
  else if _ : column < 1 then .error (.column column)
  else .ok ⟨⟨start.toNat, stop.toNat, by omega⟩, line.toNat, column.toNat, by omega, by omega⟩

def ofOffset (source : Text) (offset : Nat) : Location :=
  let place := Place.ofOffset source offset
  ⟨⟨offset, offset, Nat.le_refl offset⟩, place.line, place.column,
    (Place.one_le_ofOffset source offset).1, (Place.one_le_ofOffset source offset).2⟩

end Location

end Playscript
