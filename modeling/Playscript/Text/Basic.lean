/-!
# Texts

A text is a list of characters; offsets and lengths count characters. This module holds the
searches that recognition needs: what follows a given beginning, where a given piece first occurs,
and the two sides of a mark.
-/

namespace Playscript

abbrev Text := List Char

namespace Text

/-- What follows `lead` in a text that begins with it. -/
def after? : Text → Text → Option Text
  | [], text => some text
  | _ :: _, [] => none
  | c :: lead, d :: text => if c = d then after? lead text else none

theorem after?_eq_some_iff {lead text rest : Text} :
    after? lead text = some rest ↔ text = lead ++ rest := by
  induction lead generalizing text with
  | nil => simp [after?, eq_comm]
  | cons c lead ih =>
    cases text with
    | nil => simp [after?]
    | cons d text => by_cases h : c = d <;> simp [after?, h, ih, eq_comm]

theorem after?_append (lead rest : Text) : after? lead (lead ++ rest) = some rest :=
  after?_eq_some_iff.2 rfl

/-- Offset of the first occurrence of `piece`, where the text itself starts at `offset`. -/
def findFrom (piece : Text) (offset : Nat) : Text → Option Nat
  | [] => if piece.isEmpty then some offset else none
  | c :: text =>
    if piece.isPrefixOf (c :: text) then some offset else findFrom piece (offset + 1) text

def find? (piece text : Text) : Option Nat := findFrom piece 0 text

def hasPiece (piece text : Text) : Bool := (find? piece text).isSome

theorem findFrom_eq_map (piece text : Text) (offset : Nat) :
    findFrom piece offset text = (find? piece text).map (· + offset) := by
  suffices h : ∀ k, findFrom piece (k + offset) text = (findFrom piece k text).map (· + offset) by
    simpa [find?] using h 0
  induction text with
  | nil => intro k; by_cases h : piece = [] <;> simp [findFrom, h]
  | cons c text ih =>
    intro k
    by_cases h : piece.isPrefixOf (c :: text)
    · simp [findFrom, h]
    · have := ih (k + 1)
      simp [findFrom, h, Nat.add_right_comm k offset 1, this]

/-- The text before `piece`, and the text after it, at its first occurrence. -/
def cut? (piece text : Text) : Option (Text × Text) :=
  (find? piece text).map fun offset => (text.take offset, text.drop (offset + piece.length))

def cutAt? (mark : Char) (text : Text) : Option (Text × Text) :=
  match text.dropWhile (· != mark) with
  | [] => none
  | _ :: rest => some (text.takeWhile (· != mark), rest)

theorem cutAt?_cons (mark c : Char) (text : Text) : cutAt? mark (c :: text) =
    if c = mark then some ([], text) else (cutAt? mark text).map fun p => (c :: p.1, p.2) := by
  by_cases h : c = mark
  · simp [cutAt?, h]
  · simp only [cutAt?, List.dropWhile_cons, List.takeWhile_cons, bne_iff_ne, ne_eq, h,
      not_false_eq_true, if_true, if_false]
    split <;> simp

theorem cutAt?_eq_some_iff {mark : Char} {text before rest : Text} :
    cutAt? mark text = some (before, rest) ↔ text = before ++ mark :: rest ∧ mark ∉ before := by
  induction text generalizing before with
  | nil => simp [cutAt?]
  | cons c text ih =>
    rw [cutAt?_cons]
    by_cases h : c = mark
    · subst h
      cases before with
      | nil => simp [eq_comm]
      | cons d before =>
        simp only [if_true, Option.some.injEq, Prod.mk.injEq, reduceCtorEq, false_and, false_iff]
        rintro ⟨he, hm⟩
        injection he with hd
        exact hm (by simp [hd])
    · cases before with
      | nil => simp [h]
      | cons d before =>
        simp only [h, if_false, Option.map_eq_some_iff, Prod.exists, Prod.mk.injEq,
          List.cons.injEq, List.cons_append, List.mem_cons, not_or]
        constructor
        · rintro ⟨a, b, hab, ⟨rfl, rfl⟩, rfl⟩
          have := ih.1 hab
          exact ⟨⟨rfl, this.1⟩, Ne.symm h, this.2⟩
        · rintro ⟨⟨rfl, ht⟩, -, hm⟩
          exact ⟨before, rest, ih.2 ⟨ht, hm⟩, ⟨rfl, rfl⟩, rfl⟩

theorem cutAt?_eq_none_iff {mark : Char} {text : Text} :
    cutAt? mark text = none ↔ mark ∉ text := by
  induction text with
  | nil => simp [cutAt?]
  | cons c text ih =>
    rw [cutAt?_cons]
    by_cases h : c = mark
    · simp [h]
    · simp [h, ih, Ne.symm h]

def commaSeparated (texts : List Text) : Text := [',', ' '].intercalate texts

theorem drop_length_takeWhile (p : Char → Bool) (text : Text) :
    text.drop (text.takeWhile p).length = text.dropWhile p := by
  induction text with
  | nil => rfl
  | cons c text ih => by_cases h : p c <;> simp [List.takeWhile, List.dropWhile, h, ih]

end Text

end Playscript
