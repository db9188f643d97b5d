import Mathlib.Data.List.TakeWhile
import Playscript.Text.Basic

/-!
# Runs and first occurrences

A run of characters of one class ends at the first character outside the class. A piece of two
different characters cannot overlap itself, so its first occurrence splits a text in one way only.
-/

namespace Playscript.Text

variable {p : Char → Bool} {run rest text : Text}

def StopsRun (p : Char → Bool) (rest : Text) : Prop := ∀ c ∈ rest.head?, p c = false

theorem stopsRun_nil : StopsRun p [] := by simp [StopsRun]

theorem stopsRun_cons {c : Char} (h : p c = false) : StopsRun p (c :: rest) := by
  simpa [StopsRun] using h

theorem stopsRun_dropWhile (p : Char → Bool) (text : Text) : StopsRun p (text.dropWhile p) := by
  intro c hc
  have h := List.head?_dropWhile_not p text
  rw [Option.mem_def.mp hc] at h
  exact h

theorem takeWhile_run (h : ∀ c ∈ run, p c) (hr : StopsRun p rest) :
    (run ++ rest).takeWhile p = run := by
  rw [List.takeWhile_append_of_pos h]
  cases rest with
  | nil => simp
  | cons c rest =>
    have hc : p c = false := hr c (by simp)
    simp [hc]

theorem dropWhile_run (h : ∀ c ∈ run, p c) (hr : StopsRun p rest) :
    (run ++ rest).dropWhile p = rest := by
  rw [List.dropWhile_append_of_pos h]
  cases rest with
  | nil => simp
  | cons c rest =>
    have hc : p c = false := hr c (by simp)
    simp [hc]

theorem run_append_inj {other later : Text} (h : ∀ c ∈ run, p c) (hr : StopsRun p rest)
    (ho : ∀ c ∈ other, p c) (hl : StopsRun p later) (heq : run ++ rest = other ++ later) :
    run = other ∧ rest = later := by
  constructor
  · rw [← takeWhile_run h hr, heq, takeWhile_run ho hl]
  · rw [← dropWhile_run h hr, heq, dropWhile_run ho hl]

theorem length_takeWhile_add (p : Char → Bool) (text : Text) :
    (text.takeWhile p).length + (text.dropWhile p).length = text.length := by
  rw [← List.length_append, List.takeWhile_append_dropWhile]

theorem drop_ne_nil {offset : Nat} (h : offset < text.length) : text.drop offset ≠ [] := by
  intro hd
  rw [List.drop_eq_nil_iff] at hd
  omega

theorem run_split (p : Char → Bool) (text : Text) :
    text = text.takeWhile p ++ text.dropWhile p ∧ (∀ c ∈ text.takeWhile p, p c) ∧
      StopsRun p (text.dropWhile p) :=
  ⟨List.takeWhile_append_dropWhile.symm, fun _ hc => List.mem_takeWhile_imp hc,
    stopsRun_dropWhile p text⟩

theorem after?_mark_eq_none_iff {mark : Char} :
    after? [mark] text = none ↔ text.head? ≠ some mark := by
  cases text with
  | nil => simp [after?]
  | cons c text => simp [after?, eq_comm]

theorem hasPiece_nil {piece : Text} (h : piece ≠ []) : hasPiece piece [] = false := by
  simp [hasPiece, find?, findFrom, h]

theorem hasPiece_cons (piece : Text) (c : Char) (text : Text) :
    hasPiece piece (c :: text) = (piece.isPrefixOf (c :: text) || hasPiece piece text) := by
  by_cases h : piece.isPrefixOf (c :: text)
  · simp [hasPiece, find?, findFrom, h]
  · simp [hasPiece, find?, findFrom, h, findFrom_eq_map piece text 1]

theorem cut?_eq_none_iff {piece : Text} : cut? piece text = none ↔ hasPiece piece text = false := by
  simp [cut?, hasPiece]

theorem cut?_nil {piece : Text} (h : piece ≠ []) : cut? piece [] = none :=
  cut?_eq_none_iff.mpr (hasPiece_nil h)

theorem cut?_cons (piece : Text) (c : Char) (text : Text) : cut? piece (c :: text) =
    if piece.isPrefixOf (c :: text) then some ([], (c :: text).drop piece.length)
    else (cut? piece text).map fun parts => (c :: parts.1, parts.2) := by
  by_cases h : piece.isPrefixOf (c :: text)
  · simp [cut?, find?, findFrom, h]
  · simp only [cut?, find?, findFrom, h, findFrom_eq_map piece text 1, Option.map_map]
    cases findFrom piece 0 text with
    | none => rfl
    | some k => simp [Nat.add_right_comm k 1 piece.length]

theorem find?_eq_map_cut? {piece : Text} (hne : piece ≠ []) (text : Text) :
    find? piece text = (cut? piece text).map fun parts => parts.1.length := by
  induction text with
  | nil => simp [cut?_nil hne, find?, findFrom, hne]
  | cons c text ih =>
    rw [find?, findFrom, findFrom_eq_map, ih, cut?_cons]
    by_cases h : piece.isPrefixOf (c :: text)
    · rw [if_pos h, if_pos h]
      rfl
    · rw [if_neg h, if_neg h, Option.map_map, Option.map_map]
      rfl

theorem cutAt?_eq_cut? (mark : Char) (text : Text) : cutAt? mark text = cut? [mark] text := by
  induction text with
  | nil => rfl
  | cons c text ih =>
    rw [cutAt?_cons, cut?_cons, ih]
    by_cases h : c = mark
    · simp [h, List.isPrefixOf]
    · simp [h, Ne.symm h, List.isPrefixOf]

theorem find?_mark (mark : Char) (text : Text) :
    find? [mark] text = (cutAt? mark text).map fun parts => parts.1.length := by
  rw [cutAt?_eq_cut?, find?_eq_map_cut? (List.cons_ne_nil mark [])]

variable {a b : Char} {before after : Text}

theorem pair_isPrefixOf_iff : [a, b].isPrefixOf text = true ↔ ∃ rest, text = a :: b :: rest := by
  rw [List.isPrefixOf_iff_prefix, List.prefix_iff_exists_append_eq]
  exact ⟨fun ⟨rest, h⟩ => ⟨rest, h.symm⟩, fun ⟨rest, h⟩ => ⟨rest, h.symm⟩⟩

theorem cut?_pair_complete (hab : a ≠ b) (h : hasPiece [a, b] before = false) :
    cut? [a, b] (before ++ a :: b :: after) = some (before, after) := by
  induction before with
  | nil => simp [cut?_cons, List.isPrefixOf]
  | cons c before ih =>
    rw [hasPiece_cons, Bool.or_eq_false_iff] at h
    have hc : [a, b].isPrefixOf (c :: (before ++ a :: b :: after)) = false := by
      rw [Bool.eq_false_iff]
      intro hp
      obtain ⟨rest, he⟩ := pair_isPrefixOf_iff.mp hp
      cases before with
      | nil =>
        have hd : a = b := (List.cons.inj (List.cons.inj he).2).1
        exact hab hd
      | cons d before =>
        have hd := (List.cons.inj (List.cons.inj he).2).1
        have : [a, b].isPrefixOf (c :: d :: before) = true :=
          pair_isPrefixOf_iff.mpr ⟨before, by rw [(List.cons.inj he).1, hd]⟩
        rw [this] at h
        cases h.1
    rw [List.cons_append, cut?_cons, hc, ih h.2]
    simp

theorem cut?_pair_sound (h : cut? [a, b] text = some (before, after)) :
    text = before ++ a :: b :: after ∧ hasPiece [a, b] before = false := by
  induction text generalizing before with
  | nil => rw [cut?_nil (by simp)] at h; cases h
  | cons c text ih =>
    rw [cut?_cons] at h
    split at h
    · next hp =>
      obtain ⟨rest, he⟩ := pair_isPrefixOf_iff.mp hp
      obtain ⟨rfl, rfl⟩ := Prod.mk.inj (Option.some.inj h)
      exact ⟨by simp [he], hasPiece_nil (by simp)⟩
    · next hp =>
      obtain ⟨⟨front, back⟩, hcut, heq⟩ := Option.map_eq_some_iff.mp h
      obtain ⟨rfl, rfl⟩ := Prod.mk.inj heq
      obtain ⟨rfl, hfront⟩ := ih hcut
      refine ⟨rfl, ?_⟩
      rw [hasPiece_cons, hfront, Bool.or_false, Bool.eq_false_iff]
      intro hf
      obtain ⟨rest, he⟩ := pair_isPrefixOf_iff.mp hf
      refine hp (pair_isPrefixOf_iff.mpr ⟨rest ++ a :: b :: back, ?_⟩)
      rw [← List.cons_append, he]
      rfl

end Playscript.Text
