import Playscript.Reading.Outcome
import Playscript.Text.Blank
import Playscript.Text.Name

/-!
# Tokens

Names, identifiers, quotations and single parameters. A quotation ends at the next occurrence of
its mark, and nothing inside it is escaped. A parameter ends at a space or at the end of the text.
-/

namespace Playscript.Recognizer

def name : Recognizer Text := fun text =>
  let word := text.takeWhile isNameChar
  if word.isEmpty then .absent else .matched word word.length

def identifier : Recognizer Token
  | [] => .refused ⟨.notIdentifier, 0⟩
  | c :: rest =>
    if isNameChar c then
      let word := c :: rest.takeWhile isIdentifierChar
      .matched (.identifier word) word.length
    else .refused ⟨.notIdentifier, 0⟩

def quotation : Recognizer Token
  | [] => .absent
  | mark :: rest =>
    if mark ∈ Mark.quotes then
      match Text.cutAt? mark rest with
      | none => .absent
      | some (value, _) => .matched (.quotation value [mark]) (value.length + 2)
    else .absent

def atTokenEnd : Text → Bool
  | [] => true
  | c :: _ => isSpace c

def isKeyChar (c : Char) : Bool := !isSpace c && c != Mark.assign

def assigned (key : Text) : Recognizer Value
  | [] => .refused ⟨.missingValue key, 0⟩
  | mark :: rest =>
    if isSpace mark then .refused ⟨.missingValue key, 0⟩
    else if mark ∈ Mark.quotes then
      match Text.cutAt? mark rest with
      | none => .refused ⟨.openQuote key mark, 0⟩
      | some (value, after) =>
        if atTokenEnd after then .matched (.text value) (value.length + 2)
        else .refused ⟨.textAfterQuote key, value.length + 2⟩
    else
      let value := mark :: rest.takeWhile (!isSpace ·)
      .matched (.text value) value.length

/-- A key alone is a flag. -/
def parameter : Recognizer Entry := fun text =>
  if atTokenEnd text then .absent
  else
    let key := text.takeWhile isKeyChar
    match Text.after? [Mark.assign] (text.dropWhile isKeyChar) with
    | none => .matched (key, .flag) key.length
    | some rest =>
      if key.isEmpty then .refused ⟨.missingKey, 0⟩
      else ((assigned key rest).map (key, ·)).shift (key.length + 1)

theorem stop_pos_of_parameter {text : Text} {entry : Entry} {stop : Nat}
    (h : parameter text = .matched entry stop) : 0 < stop ∧ text ≠ [] := by
  unfold parameter at h
  split at h
  · simp at h
  · next hend =>
    have hne : text ≠ [] := by rintro rfl; exact hend rfl
    refine ⟨?_, hne⟩
    dsimp only at h
    split at h
    · next hnone =>
      injection h with _ hs
      subst hs
      obtain ⟨c, rest, rfl⟩ := List.exists_cons_of_ne_nil hne
      have hc : isSpace c = false := by simpa [atTokenEnd] using hend
      by_cases hm : c = Mark.assign
      · subst hm
        simp [isKeyChar, Text.after?] at hnone
      · simp [isKeyChar, hc, hm]
    · split at h
      · simp at h
      · cases ha : assigned (text.takeWhile isKeyChar) ‹Text› with
        | absent => simp [ha, Outcome.map, Outcome.shift] at h
        | refused r => simp [ha, Outcome.map, Outcome.shift] at h
        | matched v n =>
          simp only [ha, Outcome.map, Outcome.shift, Outcome.matched.injEq] at h
          omega

end Playscript.Recognizer
