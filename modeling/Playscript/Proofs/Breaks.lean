import Mathlib.Data.List.Basic
import Playscript.Sigil
import Playscript.Text.PhysicalLine

/-!
# Line breaks in a text

A text without a break is left alone when breaks are folded, and folding leaves no break behind.
-/

namespace Playscript

theorem isSpace_of_isBreak {c : Char} (h : isBreak c) : isSpace c := by
  simp only [isBreak, Bool.or_eq_true, beq_iff_eq] at h
  rcases h with rfl | rfl
  · decide
  · decide

namespace Text

variable {text : Text}

theorem hasBreak_eq_false_iff : text.hasBreak = false ↔ ∀ c ∈ text, isBreak c = false := by
  simp [hasBreak]

@[simp] theorem hasBreak_nil : hasBreak [] = false := rfl

@[simp] theorem hasBreak_cons (c : Char) (text : Text) :
    hasBreak (c :: text) = (isBreak c || text.hasBreak) := rfl

@[simp] theorem hasBreak_append (text tail : Text) :
    (text ++ tail).hasBreak = (text.hasBreak || tail.hasBreak) := List.any_append

theorem hasBreak_of_subset {part : Text} (h : text.hasBreak = false) (hs : ∀ c ∈ part, c ∈ text) :
    part.hasBreak = false := by
  rw [hasBreak_eq_false_iff] at h ⊢
  intro c hc
  exact h c (hs c hc)

theorem hasBreak_of_unspaced (h : ∀ c ∈ text, isSpace c = false) : text.hasBreak = false := by
  rw [hasBreak_eq_false_iff]
  intro c hc
  cases hb : isBreak c with
  | false => rfl
  | true =>
    have hs := isSpace_of_isBreak hb
    rw [h c hc] at hs
    cases hs

theorem hasBreak_foldBreaks (text : Text) : text.foldBreaks.hasBreak = false := by
  rw [hasBreak_eq_false_iff]
  intro c hc
  obtain ⟨d, -, rfl⟩ := List.mem_map.mp hc
  split
  · decide
  next hd => simpa using hd

theorem foldBreaks_eq_self (h : text.hasBreak = false) : text.foldBreaks = text := by
  rw [hasBreak_eq_false_iff] at h
  have hmap : ∀ c ∈ text, (if isBreak c then ' ' else c) = id c := by
    intro c hc
    simp [h c hc]
  rw [foldBreaks, List.map_congr_left hmap, List.map_id]

theorem foldBreaks_append (front rest : Text) :
    foldBreaks (front ++ rest) = front.foldBreaks ++ rest.foldBreaks :=
  List.map_append

theorem foldBreaks_take (text : Text) (count : Nat) :
    foldBreaks (text.take count) = text.foldBreaks.take count :=
  List.map_take

theorem foldBreaks_drop (text : Text) (count : Nat) :
    foldBreaks (text.drop count) = text.foldBreaks.drop count :=
  List.map_drop

theorem isBreak_of_mem_quotes {mark : Char} (h : mark ∈ Mark.quotes) : isBreak mark = false := by
  simp only [Mark.quotes, List.mem_cons, List.not_mem_nil, or_false] at h
  rcases h with rfl | rfl
  · decide
  · decide

def endsInBreak (text : Text) : Bool := text.getLast?.any isBreak

variable {lead tail : Text}

theorem endsInBreak_append (h : tail ≠ []) : (lead ++ tail).endsInBreak = tail.endsInBreak := by
  rw [endsInBreak, endsInBreak, List.getLast?_append_of_ne_nil _ h]

theorem endsInBreak_append_flat (hl : lead.endsInBreak = false)
    (h : ∀ c ∈ tail, isBreak c = false) : (lead ++ tail).endsInBreak = false := by
  by_cases ht : tail = []
  · rw [ht, List.append_nil]
    exact hl
  · rw [endsInBreak_append ht, endsInBreak, List.getLast?_eq_some_getLast ht]
    exact h _ (List.getLast_mem ht)

end Text

end Playscript
