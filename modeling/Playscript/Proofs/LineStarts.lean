import Mathlib.Data.List.Basic
import Playscript.Cursor
import Playscript.Proofs.Places

/-!
# Places name offsets

The line of an offset counts the LFs before it, and the column counts from the last of them. So a
later offset has a later place, and an offset is found again from where its line starts.
-/

namespace Playscript

variable {source : Text} {offset later line start : Nat} {c : Char}

inductive Text.LineStart (source : Text) : Nat → Nat → Prop where
  | first : LineStart source 1 0
  | after {offset : Nat} (h : source[offset]? = some '\n') :
      LineStart source ((source.take offset).count '\n' + 2) (offset + 1)

namespace Place

def Before (a b : Place) : Prop := a.line < b.line ∨ (a.line = b.line ∧ a.column < b.column)

instance (a b : Place) : Decidable (Before a b) :=
  inferInstanceAs (Decidable (_ < _ ∨ (_ = _ ∧ _ < _)))

theorem before_irrefl (place : Place) : ¬ place.Before place := by
  unfold Before
  omega

theorem Before.trans {a b c : Place} (h : a.Before b) (k : b.Before c) : a.Before c := by
  unfold Before at *
  omega

theorem before_next (place : Place) (c : Char) : place.Before (place.next c) := by
  by_cases hc : c = '\n'
  · rw [next, if_pos hc]
    exact Or.inl (Nat.lt_succ_self _)
  · rw [next, if_neg hc]
    exact Or.inr ⟨rfl, Nat.lt_succ_self _⟩

theorem ofOffset_succ (h : source[offset]? = some c) :
    ofOffset source (offset + 1) = (ofOffset source offset).next c := by
  obtain ⟨hlt, -⟩ := List.getElem?_eq_some_iff.mp h
  have hover : offset - source.length = 0 := by omega
  have hover' : offset + 1 - source.length = 0 := by omega
  have htake : source.take (offset + 1) = source.take offset ++ [c] := by
    rw [List.take_add_one, h, Option.toList_some]
  have hfold : first.afterText (source.take offset ++ [c]) =
      (first.afterText (source.take offset)).next c := List.foldl_append
  rw [ofOffset, ofOffset, htake, hfold, hover, hover']
  rfl

theorem ofOffset_succ_of_le (h : source.length ≤ offset) :
    ofOffset source (offset + 1) =
      ⟨(ofOffset source offset).line, (ofOffset source offset).column + 1⟩ := by
  have htake : source.take (offset + 1) = source.take offset := by
    rw [List.take_of_length_le h, List.take_of_length_le (Nat.le_succ_of_le h)]
  rw [ofOffset, ofOffset, htake, Nat.succ_sub h]
  rfl

theorem before_ofOffset_succ (source : Text) (offset : Nat) :
    (ofOffset source offset).Before (ofOffset source (offset + 1)) := by
  cases hc : source[offset]? with
  | some c =>
    rw [ofOffset_succ hc]
    exact before_next _ c
  | none =>
    rw [ofOffset_succ_of_le (List.getElem?_eq_none_iff.mp hc)]
    exact Or.inr ⟨rfl, Nat.lt_succ_self _⟩

theorem ofOffset_before (h : offset < later) :
    (ofOffset source offset).Before (ofOffset source later) := by
  induction later with
  | zero => exact absurd h (Nat.not_lt_zero offset)
  | succ later ih =>
    rcases Nat.lt_succ_iff_lt_or_eq.mp h with hlt | rfl
    · exact (ih hlt).trans (before_ofOffset_succ source later)
    · exact before_ofOffset_succ source offset

theorem ofOffset_before_iff :
    (ofOffset source offset).Before (ofOffset source later) ↔ offset < later := by
  refine ⟨?_, ofOffset_before⟩
  intro h
  by_contra hle
  rcases Nat.eq_or_lt_of_le (Nat.le_of_not_lt hle) with rfl | hlt
  · exact before_irrefl _ h
  · exact before_irrefl _ (h.trans (ofOffset_before hlt))

theorem count_take_add_one (source : Text) (offset : Nat) :
    (source.take offset).count '\n' + 1 = (ofOffset source offset).line := by
  rw [ofOffset, line_afterText]
  exact Nat.add_comm _ _

/-- The column of an offset counts from the start of its line. -/
theorem exists_lineStart (source : Text) (offset : Nat) : ∃ start,
    source.LineStart (ofOffset source offset).line start ∧
      offset + 1 = start + (ofOffset source offset).column := by
  induction offset with
  | zero => exact ⟨0, .first, by simp [ofOffset, afterText, first]⟩
  | succ offset ih =>
    obtain ⟨start, hstart, hcolumn⟩ := ih
    cases hc : source[offset]? with
    | none =>
      rw [ofOffset_succ_of_le (List.getElem?_eq_none_iff.mp hc)]
      exact ⟨start, hstart, by rw [hcolumn, Nat.add_assoc]⟩
    | some c =>
      rw [ofOffset_succ hc, next]
      by_cases hlf : c = '\n'
      · -- A line starts here, which is the next after as many LFs as stand before this one.
        subst hlf
        have hline : source.LineStart ((ofOffset source offset).line + 1) (offset + 1) := by
          rw [← count_take_add_one]
          exact .after hc
        rw [if_pos rfl]
        exact ⟨offset + 1, hline, rfl⟩
      · rw [if_neg hlf]
        exact ⟨start, hstart, by rw [hcolumn, Nat.add_assoc]⟩

end Place

namespace Text

theorem count_take_lt (h : source[offset]? = some '\n') (hlt : offset < later) :
    (source.take offset).count '\n' < (source.take later).count '\n' := by
  have hnext : (source.take (offset + 1)).count '\n' = (source.take offset).count '\n' + 1 := by
    rw [List.take_add_one, h, Option.toList_some, List.count_append, List.count_singleton_self]
  have hle : (source.take (offset + 1)).count '\n' ≤ (source.take later).count '\n' := by
    apply List.Sublist.count_le
    exact List.take_sublist_take_left hlt
  omega

theorem LineStart.unique {other : Nat} (h : source.LineStart line start)
    (k : source.LineStart line other) : other = start := by
  cases h with
  | first => cases k with
    | first => rfl
  | @after offset h =>
    generalize hline : (source.take offset).count '\n' + 2 = line at k
    cases k with
    | first => omega
    | @after later k =>
      -- Of two line starts the later one has more LFs before it.
      rcases Nat.lt_trichotomy offset later with hlt | rfl | hlt
      · have := count_take_lt h hlt
        omega
      · rfl
      · have := count_take_lt k hlt
        omega

end Text

namespace Cursor

/-- Places are ordered as the offsets are. The line of a place counts the LFs before the offset, and
the column leads from the one start of that line to the offset. -/
theorem place_determines_offset (source : Text) :
    (∀ p q, (Cursor.mk source p).place.Before (Cursor.mk source q).place ↔ p < q) ∧
    ∀ p, 1 ≤ (Cursor.mk source p).place.line ∧ 1 ≤ (Cursor.mk source p).place.column ∧
      (source.take p).count '\n' = (Cursor.mk source p).place.line - 1 ∧
      ∃ start, p = start + (Cursor.mk source p).place.column - 1 ∧
        ∀ other, source.LineStart (Cursor.mk source p).place.line other ↔ other = start := by
  constructor
  · intro p q
    exact Place.ofOffset_before_iff
  · intro p
    obtain ⟨hline, hcolumn⟩ := Place.one_le_ofOffset source p
    obtain ⟨start, hstart, hp⟩ := Place.exists_lineStart source p
    have hcount := Place.count_take_add_one source p
    refine ⟨hline, hcolumn, Nat.eq_sub_of_add_eq hcount, start, ?_, ?_⟩
    · exact Nat.eq_sub_of_add_eq hp
    · intro other
      constructor
      · intro h
        exact hstart.unique h
      · rintro rfl
        exact hstart

end Cursor

end Playscript
