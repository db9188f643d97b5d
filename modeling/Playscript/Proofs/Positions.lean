import Mathlib.Data.Nat.Find
import Playscript.Proofs.Occurrences
import Playscript.Proofs.Walk

/-!
# Positions in a source

A recognizer counts from where it stands. Here its outcome and the searches it makes are placed in
the source: a piece first stands at an offset from some start on, and what is found from a cursor
reaches from there to where the match stops.
-/

namespace Playscript

namespace Text

variable {piece text : Text} {start offset size : Nat}

structure FirstAt (text piece : Text) (start offset : Nat) : Prop where
  start_le : start ≤ offset
  stands : piece <+: text.drop offset
  earliest : ∀ place, start ≤ place → place < offset → ¬ piece <+: text.drop place

theorem firstAt_drop_iff :
    FirstAt (text.drop start) piece 0 size ↔ text.FirstAt piece start (start + size) := by
  constructor
  · rintro ⟨-, hs, he⟩
    rw [List.drop_drop] at hs
    refine ⟨Nat.le_add_right start size, hs, ?_⟩
    intro place hle hlt hp
    obtain ⟨ahead, rfl⟩ := Nat.exists_eq_add_of_le hle
    rw [← List.drop_drop] at hp
    exact he ahead (Nat.zero_le _) (by omega) hp
  · rintro ⟨-, hs, he⟩
    rw [← List.drop_drop] at hs
    refine ⟨Nat.zero_le _, hs, ?_⟩
    intro place _ hlt hp
    rw [List.drop_drop] at hp
    exact he (start + place) (Nat.le_add_right _ _) (by omega) hp

theorem firstAt_self_iff (h : piece <+: text.drop start) :
    text.FirstAt piece start offset ↔ offset = start := by
  constructor
  · rintro ⟨hle, -, he⟩
    by_contra hne
    exact he start (Nat.le_refl _) (by omega) h
  · rintro rfl
    refine ⟨Nat.le_refl _, h, ?_⟩
    intro place hle hlt
    omega

theorem firstAt_succ_iff (h : ¬ piece <+: text.drop start) :
    text.FirstAt piece start offset ↔ text.FirstAt piece (start + 1) offset := by
  constructor
  · rintro ⟨hle, hs, he⟩
    have hne : start ≠ offset := by
      rintro rfl
      exact h hs
    refine ⟨by omega, hs, ?_⟩
    intro place hplace
    exact he place (by omega)
  · rintro ⟨hle, hs, he⟩
    refine ⟨by omega, hs, ?_⟩
    intro place hplace hlt hp
    by_cases heq : place = start
    · exact h (heq ▸ hp)
    · exact he place (by omega) hlt hp

theorem find?_eq_some_iff : find? piece text = some offset ↔ text.FirstAt piece 0 offset := by
  induction text generalizing offset with
  | nil =>
    by_cases hp : piece = []
    · rw [firstAt_self_iff (by simp [hp])]
      simp [find?, findFrom, hp, eq_comm]
    · have hnone : find? piece [] = none := by simp [find?, findFrom, hp]
      rw [hnone]
      constructor
      · rintro ⟨⟩
      · rintro ⟨-, hs, -⟩
        rw [List.drop_nil] at hs
        exact (hp (List.prefix_nil.mp hs)).elim
  | cons c text ih =>
    by_cases hp : piece.isPrefixOf (c :: text)
    · have hs : piece <+: (c :: text).drop 0 := List.isPrefixOf_iff_prefix.mp hp
      rw [firstAt_self_iff hs]
      simp [find?, findFrom, hp, eq_comm]
    · have hs : ¬ piece <+: (c :: text).drop 0 := fun hs => hp (List.isPrefixOf_iff_prefix.mpr hs)
      rw [firstAt_succ_iff hs, find?, findFrom, if_neg hp, findFrom_eq_map,
        Option.map_eq_some_iff]
      constructor
      · rintro ⟨size, hsize, rfl⟩
        rw [Nat.zero_add, Nat.add_comm, ← firstAt_drop_iff]
        exact ih.mp hsize
      · intro hf
        obtain ⟨size, rfl⟩ := Nat.exists_eq_add_of_le hf.start_le
        rw [Nat.zero_add, ← firstAt_drop_iff] at hf
        exact ⟨size, ih.mpr hf, by omega⟩

theorem exists_firstAt_iff : (∃ offset, text.FirstAt piece start offset) ↔
    ∃ offset, start ≤ offset ∧ piece <+: text.drop offset := by
  classical
  constructor
  · rintro ⟨offset, hf⟩
    exact ⟨offset, hf.start_le, hf.stands⟩
  · intro h
    obtain ⟨hle, hs⟩ := Nat.find_spec h
    refine ⟨Nat.find h, hle, hs, ?_⟩
    intro place hplace hlt hp
    exact Nat.find_min h hlt ⟨hplace, hp⟩

theorem singleton_prefix_drop_iff {c : Char} :
    [c] <+: text.drop offset ↔ text[offset]? = some c := by
  rw [List.singleton_prefix_iff_head?_eq_some, List.head?_drop]

theorem mem_drop_iff {c : Char} :
    c ∈ text.drop start ↔ ∃ offset, start ≤ offset ∧ text[offset]? = some c := by
  rw [List.mem_iff_getElem?]
  constructor
  · rintro ⟨ahead, h⟩
    rw [List.getElem?_drop] at h
    exact ⟨start + ahead, Nat.le_add_right start ahead, h⟩
  · rintro ⟨offset, hle, h⟩
    obtain ⟨ahead, rfl⟩ := Nat.exists_eq_add_of_le hle
    rw [← List.getElem?_drop] at h
    exact ⟨ahead, h⟩

theorem FirstAt.lt_length (h : text.FirstAt piece start offset) (hne : piece ≠ []) :
    offset < text.length := by
  by_contra hle
  have hs := h.stands
  rw [List.drop_eq_nil_iff.mpr (by omega)] at hs
  exact hne (List.prefix_nil.mp hs)

end Text

namespace Cursor

variable {α : Type} {recognizer : Recognizer α} {cursor : Cursor} {piece : Text} {close : Nat}

theorem remaining_of_getElem? {c : Char} (h : cursor.source[cursor.offset]? = some c) :
    ∃ rest, cursor.remaining = c :: rest := by
  rw [← List.head?_drop, List.head?_eq_some_iff] at h
  exact h

/-- A cut of what remains parts the source before and behind the first place of the piece. -/
theorem cut?_remaining_of_firstAt (h : cursor.source.FirstAt piece cursor.offset close) :
    Text.cut? piece cursor.remaining =
      some (cursor.sliceTo close, cursor.source.drop (close + piece.length)) := by
  obtain ⟨size, rfl⟩ := Nat.exists_eq_add_of_le h.start_le
  have hfind := Text.find?_eq_some_iff.mpr (Text.firstAt_drop_iff.mpr h)
  have hslice := cursor.sliceTo_forward size
  change Text.find? piece cursor.remaining = some size at hfind
  change cursor.sliceTo (cursor.offset + size) = _ at hslice
  rw [Text.cut?, hfind, Option.map_some, hslice, remaining, List.drop_drop, Nat.add_assoc]

theorem cut?_remaining_eq_none_iff : Text.cut? piece cursor.remaining = none ↔
    ∀ place, cursor.offset ≤ place → ¬ piece <+: cursor.source.drop place := by
  have hexists := @Text.exists_firstAt_iff piece cursor.source cursor.offset
  rw [Text.cut?, Option.map_eq_none_iff, Option.eq_none_iff_forall_ne_some]
  constructor
  · intro h place hle hs
    obtain ⟨close, hf⟩ := hexists.mpr ⟨place, hle, hs⟩
    obtain ⟨size, rfl⟩ := Nat.exists_eq_add_of_le hf.start_le
    exact h size (Text.find?_eq_some_iff.mpr (Text.firstAt_drop_iff.mpr hf))
  · intro h size hfind
    obtain ⟨place, hle, hs⟩ :=
      hexists.mp ⟨_, Text.firstAt_drop_iff.mp (Text.find?_eq_some_iff.mp hfind)⟩
    exact h place hle hs

theorem offset_add_length_sliceTo (h : cursor.offset ≤ close) (hle : close ≤ cursor.source.length) :
    cursor.offset + (cursor.sliceTo close).length = close := by
  rw [sliceTo, List.length_drop, List.length_take]
  omega

theorem not_prefix_sliceTo (h : cursor.source.FirstAt piece cursor.offset close) (hne : piece ≠ [])
    (place : Nat) : ¬ piece <+: (cursor.sliceTo close).drop place := by
  intro hp
  rw [sliceTo, List.drop_drop, List.drop_take] at hp
  have hlt : cursor.offset + place < close := by
    by_contra hle
    rw [Nat.sub_eq_zero_of_le (by omega), List.take_zero] at hp
    exact hne (List.prefix_nil.mp hp)
  exact h.earliest _ (Nat.le_add_right _ _) hlt (hp.trans (List.take_prefix _ _))

def located (cursor : Cursor) (content : α) (stop : Nat) : Located α :=
  ⟨content, cursor.sliceTo stop, some (.ofSize cursor.offset (stop - cursor.offset))⟩

theorem run_eq_absent_iff :
    cursor.run recognizer = .absent ↔ recognizer cursor.remaining = .absent := by
  unfold run
  cases recognizer cursor.remaining <;> simp

theorem run_eq_refused_iff {refusal : Refusal} : cursor.run recognizer = .refused refusal ↔
    ∃ inner, recognizer cursor.remaining = .refused inner ∧
      refusal = inner.shift cursor.offset := by
  unfold run
  cases recognizer cursor.remaining <;> simp [eq_comm]

theorem run_eq_matched_iff {found : Located α} {stop : Nat} :
    cursor.run recognizer = .matched found stop ↔
      ∃ content size, recognizer cursor.remaining = .matched content size ∧
        found = cursor.located content stop ∧ stop = cursor.offset + size := by
  have hlocated : ∀ content : α, ∀ size, cursor.located content (cursor.offset + size) =
      ⟨content, cursor.remaining.take size, some (.ofSize cursor.offset size)⟩ := by
    intro content size
    have hslice := cursor.sliceTo_forward size
    change cursor.sliceTo (cursor.offset + size) = _ at hslice
    rw [located, hslice, Nat.add_sub_cancel_left]
  unfold run
  cases recognizer cursor.remaining with
  | absent => simp
  | refused refusal => simp
  | matched content size =>
    constructor
    · intro h
      obtain ⟨rfl, rfl⟩ := Outcome.matched.inj h
      exact ⟨content, size, rfl, (hlocated content size).symm, rfl⟩
    · rintro ⟨other, count, hm, rfl, rfl⟩
      obtain ⟨rfl, rfl⟩ := Outcome.matched.inj hm
      rw [hlocated]

/-- Situations that lead to their outcomes and leave no case over decide what is found. -/
theorem run_eq_iff_of_situations {situation : Outcome (Located α) → Prop}
    (hexists : ∃ outcome, situation outcome)
    (hrun : ∀ outcome, situation outcome → cursor.run recognizer = outcome)
    (outcome : Outcome (Located α)) : cursor.run recognizer = outcome ↔ situation outcome := by
  constructor
  · rintro rfl
    obtain ⟨outcome, ho⟩ := hexists
    rw [hrun outcome ho]
    exact ho
  · intro ho
    exact hrun outcome ho

end Cursor

end Playscript
