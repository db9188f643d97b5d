import Playscript.Reading.Token

/-!
# Lists of parameters

Parameters stand one after the other with spaces between them. A key may be given only once, so the
keys of the list are distinct.
-/

namespace Playscript

/-- The parameters of a text whose keys are not among `seen`, in order. -/
def Entry.readAll (seen : List Text) (text : Text) : Except Refusal (List Entry) :=
  let space := (text.takeWhile isSpace).length
  match _h : Recognizer.parameter (text.dropWhile isSpace) with
  | .absent => .ok []
  | .refused refusal => .error (refusal.shift space)
  | .matched entry size =>
    if entry.1 ∈ seen then .error ⟨.repeatedKey entry.1, space⟩
    else
      match readAll (entry.1 :: seen) ((text.dropWhile isSpace).drop size) with
      | .error refusal => .error (refusal.shift (space + size))
      | .ok entries => .ok (entry :: entries)
termination_by text.length
decreasing_by
  have hs := Recognizer.stop_pos_of_parameter _h
  have hl : (text.dropWhile isSpace).length ≤ text.length := (List.dropWhile_sublist _).length_le
  have hp := List.length_pos_iff.2 hs.2
  rw [List.length_drop]
  omega

def Parameters.read (text : Text) : Except Refusal Parameters :=
  (Entry.readAll [] text).map .ofList

namespace Recognizer

def parameters : Recognizer Parameters := fun text =>
  match Parameters.read text with
  | .error refusal => .refused refusal
  | .ok parameters => .matched parameters text.length

end Recognizer

end Playscript
