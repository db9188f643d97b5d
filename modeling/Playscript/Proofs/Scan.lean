import Playscript.Cursor
import Playscript.Proofs.LineGrammar

/-!
# Scanning for a first match

A scan tries a recognizer at one offset after the other. The name of a tag between brackets is what
a scan for an identifier finds first.
-/

namespace Playscript

namespace Cursor

variable {α : Type} {source : Text} {offset stop : Nat}

theorem findFirst_end (recognizer : Recognizer α) (h : stop ≤ offset) :
    (Cursor.mk source offset).findFirst recognizer stop = none := by
  have hzero : stop - offset = 0 := by omega
  simp [findFirst, hzero]

theorem findFirst_step (recognizer : Recognizer α) (h : offset < stop)
    (hs : offset ≤ source.length) :
    (Cursor.mk source offset).findFirst recognizer stop =
      (((Cursor.mk source offset).run recognizer).matched?).or
        ((Cursor.mk source (offset + 1)).findFirst recognizer stop) := by
  obtain ⟨left, hleft⟩ : ∃ left, stop - offset = left + 1 := ⟨stop - offset - 1, by omega⟩
  have hnext : stop - (offset + 1) = left := by omega
  have hmove : (Cursor.mk source offset).moveTo offset = Cursor.mk source offset := by
    simp [moveTo, hs]
  simp only [findFirst, hleft, hnext, List.range'_succ, List.findSome?_cons, hmove]
  cases ((Cursor.mk source offset).run recognizer).matched? <;> rfl

/-- The identifier that comes first after characters that cannot begin one. -/
theorem findFirst_identifier (hs : offset ≤ source.length) :
    (Cursor.mk source offset).findFirst Recognizer.identifier source.length =
      match (source.drop offset).dropWhile (!isNameChar ·) with
      | [] => none
      | c :: rest =>
        let start := offset + ((source.drop offset).takeWhile (!isNameChar ·)).length
        let name := (c :: rest).takeWhile isIdentifierChar
        some (⟨.identifier name, name, some (.ofSize start name.length)⟩, start + name.length) := by
  induction hleft : source.length - offset generalizing offset with
  | zero =>
    have hdrop : source.drop offset = [] := List.drop_eq_nil_iff.mpr (by omega)
    rw [findFirst_end _ (by omega), hdrop]
    rfl
  | succ left ih =>
    have hlt : offset < source.length := by omega
    rw [findFirst_step _ hlt hs, ih (by omega) (by omega)]
    obtain ⟨c, tail, hdrop⟩ := List.exists_cons_of_ne_nil (Text.drop_ne_nil hlt)
    have htail : source.drop (offset + 1) = tail := by
      rw [← List.drop_drop, hdrop]
      rfl
    rw [htail, hdrop]
    cases hc : isNameChar c with
    | true =>
      have hid := isIdentifierChar_of_isNameChar hc
      have hword := List.prefix_iff_eq_take.mp (List.takeWhile_prefix (l := tail) isIdentifierChar)
      simp [run, remaining, hdrop, Recognizer.identifier, hc, hid, Outcome.matched?, ← hword]
    | false =>
      have hrun : ((Cursor.mk source offset).run Recognizer.identifier).matched? = none := by
        simp [run, remaining, hdrop, Recognizer.identifier, hc, Outcome.matched?]
      rw [hrun, Option.none_or]
      simp only [List.takeWhile_cons, List.dropWhile_cons, hc, Bool.not_false, if_true,
        List.length_cons]
      have hstart : offset + 1 + (tail.takeWhile (!isNameChar ·)).length =
          offset + ((tail.takeWhile (!isNameChar ·)).length + 1) := by omega
      rw [hstart]

end Cursor

namespace Recognizer

/-- In a tag that is not blank the name is found by a scan of the folded inside. -/
theorem bracketTag_scan {inside after : Text} (h : Mark.bracketClose ∉ inside)
    (hb : inside.foldBreaks.isBlank = false) :
    bracketTag (Sigil.bracketTag.text ++ (inside ++ Mark.bracketClose :: after)) =
      match (Cursor.mk inside.foldBreaks 0).findFirst identifier inside.length with
      | none => .refused ⟨.namelessTag, 1 + (inside.foldBreaks.takeWhile isSpace).length⟩
      | some (found, stop) =>
        tagBody .bracket found.raw (inside.foldBreaks.drop stop) (1 + stop)
          (tagStop inside after) := by
  have hcut : Text.cutAt? Mark.bracketClose (inside ++ Mark.bracketClose :: after) =
      some (inside, after) := Text.cutAt?_eq_some_iff.mpr ⟨rfl, h⟩
  have hscan := @Cursor.findFirst_identifier inside.foldBreaks 0 (Nat.zero_le _)
  rw [Text.length_foldBreaks] at hscan
  rw [hscan, List.drop_zero]
  cases hnamed : inside.foldBreaks.dropWhile (!isNameChar ·) with
  | nil => simp [bracketTag, strip?_append, hcut, hb, hnamed]
  | cons c rest =>
    have hdrop : inside.foldBreaks.drop
        ((inside.foldBreaks.takeWhile (!isNameChar ·)).length +
          ((c :: rest).takeWhile isIdentifierChar).length) =
        (c :: rest).dropWhile isIdentifierChar := by
      rw [← List.drop_drop, Text.drop_length_takeWhile, hnamed, Text.drop_length_takeWhile]
    simp only [bracketTag, strip?_append, hcut, hb, hnamed, Nat.zero_add, hdrop, tagStop,
      Nat.add_assoc]
    rfl

end Recognizer

end Playscript
