import Playscript.Proofs.Frame
import Playscript.Proofs.ParameterLayout
import Playscript.Proofs.Positions

/-!
# Bracket tags in a source

A bracket tag is closed by the first bracket behind the one that opens it. The text between them,
with its breaks folded, decides what the tag says, and the text behind the tag how far it goes.
-/

namespace Playscript

open Recognizer (atTokenEnd bracketed tagStop TagInside)

namespace Text

variable {inside skipped name body source : Text} {parameters : Parameters} {start close stop : Nat}

structure NamedAt (inside : Text) (start : Nat) (name : Text) : Prop where
  begins : ∃ c, inside[start]? = some c ∧ isNameChar c
  first : ∀ c ∈ inside.take start, isNameChar c = false
  longest : name = (inside.drop start).takeWhile isIdentifierChar

inductive ReadsTag (inside : Text) : Text → Parameters → Prop where
  | intro {name : Text} {read : Located Parameters} {start finish : Nat}
      (hn : inside.NamedAt start name) (he : atTokenEnd (inside.drop (start + name.length)))
      (hr : (Cursor.mk inside (start + name.length)).run Recognizer.parameters =
        .matched read finish) :
      ReadsTag inside name read.content

/-- A tag closed at `close` takes the rest of its line if that is padding, and else ends at once. -/
inductive TagEnds (source : Text) (close : Nat) : Nat → Prop where
  | withLine {line : PhysicalLine} {rest : Text}
      (ho : line.Opens (source.drop (close + 1)) rest) (hp : ∀ c ∈ line.content, isPadding c) :
      TagEnds source close (close + 1 + line.size)
  | atBracket {line : PhysicalLine} {rest : Text}
      (ho : line.Opens (source.drop (close + 1)) rest) (hp : ¬ ∀ c ∈ line.content, isPadding c) :
      TagEnds source close (close + 1)

theorem tagEnds_iff : source.TagEnds close stop ↔
    stop = close + 1 + if (PhysicalLine.ofText (source.drop (close + 1))).isPadding then
      (PhysicalLine.ofText (source.drop (close + 1))).size else 0 := by
  constructor
  · intro h
    cases h with
    | @withLine line rest ho hp =>
      have hpad : line.isPadding = true := List.all_eq_true.mpr hp
      rw [ho.ofText_eq, if_pos hpad]
    | @atBracket line rest ho hp =>
      have hpad : ¬ line.isPadding = true := fun hall => hp (List.all_eq_true.mp hall)
      rw [ho.ofText_eq, if_neg hpad]
  · intro h
    have ho := PhysicalLine.opens_ofText (source.drop (close + 1))
    by_cases hp : (PhysicalLine.ofText (source.drop (close + 1))).isPadding
    · rw [if_pos hp] at h
      exact h ▸ .withLine ho (List.all_eq_true.mp hp)
    · rw [if_neg hp] at h
      exact h ▸ .atBracket ho fun hall => hp (List.all_eq_true.mpr hall)

theorem NamedAt.split (h : inside.NamedAt start name) :
    inside = inside.take start ++ (name ++ inside.drop (start + name.length)) := by
  rw [← List.drop_drop, h.longest, drop_length_takeWhile, List.takeWhile_append_dropWhile,
    List.take_append_drop]

theorem NamedAt.isIdentifier (h : inside.NamedAt start name) : name.isIdentifier := by
  obtain ⟨c, hget, hc⟩ := h.begins
  obtain ⟨rest, hdrop⟩ : ∃ rest, inside.drop start = c :: rest := by
    rw [← List.head?_drop, List.head?_eq_some_iff] at hget
    exact hget
  rw [h.longest, hdrop, List.takeWhile_cons, if_pos (isIdentifierChar_of_isNameChar hc),
    Text.isIdentifier, hc, Bool.true_and, List.all_takeWhile]

theorem namedAt_append (hs : ∀ c ∈ skipped, isNameChar c = false) (hn : name.isIdentifier)
    (he : atTokenEnd body) : (skipped ++ (name ++ body)).NamedAt skipped.length name := by
  have hstop := Recognizer.stopsRun_tokenEnd
    (fun _ => Recognizer.isIdentifierChar_of_isSpace) he
  cases name with
  | nil => cases hn
  | cons c rest =>
    rw [isIdentifier, Bool.and_eq_true] at hn
    obtain ⟨hc, hrest⟩ := hn
    have hchars : ∀ d ∈ c :: rest, isIdentifierChar d := by
      rw [← List.all_eq_true, List.all_cons, isIdentifierChar_of_isNameChar hc, Bool.true_and]
      exact hrest
    constructor
    · refine ⟨c, ?_, hc⟩
      rw [List.getElem?_append_right (Nat.le_refl _), Nat.sub_self]
      rfl
    · rwa [List.take_left]
    · rw [List.drop_left, takeWhile_run hchars hstop]

end Text

namespace Recognizer

variable {inside other after rest name text : Text} {parameters : Parameters} {line : Line}
  {size : Nat}

theorem run_parameters_content_iff {cursor : Cursor} :
    (∃ read stop, cursor.run Recognizer.parameters = .matched read stop ∧
      read.content = parameters) ↔ Entry.Listing parameters.entries cursor.remaining := by
  rw [Cursor.run_parameters, ← Parameters.read_eq_ok_iff]
  cases Parameters.read cursor.remaining with
  | error refusal => simp
  | ok read => simp

/-- The folded text between the brackets says what the tag is. -/
theorem tagInside_iff (hc : Mark.bracketClose ∉ inside) :
    TagInside name parameters inside ↔ inside.foldBreaks.ReadsTag name parameters := by
  constructor
  · intro h
    cases h with
    | @intro _ skipped _ body _ _ hf hs hn he hl =>
      have hdrop : inside.foldBreaks.drop (skipped.length + name.length) = body := by
        rw [hf, ← List.append_assoc, ← List.length_append, List.drop_left]
      have hnamed := Text.namedAt_append hs hn he
      rw [← hf] at hnamed
      rw [← hdrop] at he hl
      obtain ⟨read, finish, hrun, rfl⟩ := (@run_parameters_content_iff parameters
        ⟨inside.foldBreaks, skipped.length + name.length⟩).mpr hl
      exact .intro hnamed he hrun
  · intro h
    cases h with
    | intro hnamed he hrun =>
      exact .intro hc hnamed.split hnamed.first hnamed.isIdentifier he
        (run_parameters_content_iff.mp ⟨_, _, hrun, rfl⟩)

theorem bracketed_append_inj (hc : Mark.bracketClose ∉ inside) (ho : Mark.bracketClose ∉ other)
    (h : bracketed inside ++ after = bracketed other ++ rest) : inside = other ∧ after = rest := by
  rw [bracketed_append, bracketed_append] at h
  have hcut : Text.cutAt? Mark.bracketClose (inside ++ Mark.bracketClose :: after) =
      some (inside, after) := Text.cutAt?_eq_some_iff.mpr ⟨rfl, hc⟩
  rw [List.append_cancel_left h, Text.cutAt?_eq_some_iff.mpr ⟨rfl, ho⟩] at hcut
  obtain ⟨rfl, rfl⟩ := Prod.mk.inj (Option.some.inj hcut)
  exact ⟨rfl, rfl⟩

theorem bracketTag_bracketed_iff (hc : Mark.bracketClose ∉ inside) :
    bracketTag (bracketed inside ++ after) = .matched line size ↔
      ∃ name parameters, TagInside name parameters inside ∧
        line = .tag .bracket name parameters ∧ size = tagStop inside after := by
  rw [bracketTag_eq_matched_iff]
  constructor
  · rintro ⟨other, rest, name, parameters, htext, hi, rfl, rfl⟩
    have ho : Mark.bracketClose ∉ other := by
      cases hi with
      | intro ho => exact ho
    obtain ⟨rfl, rfl⟩ := bracketed_append_inj hc ho htext
    exact ⟨name, parameters, hi, rfl, rfl⟩
  · rintro ⟨name, parameters, hi, rfl, rfl⟩
    exact ⟨inside, after, name, parameters, rfl, hi, rfl, rfl⟩

end Recognizer

namespace Cursor

variable {cursor : Cursor} {close : Nat} {refusal : Refusal}

def ClosesTag (cursor : Cursor) (close : Nat) : Prop :=
  cursor.source.FirstAt [Mark.bracketClose] (cursor.offset + 1) close

def tagText (cursor : Cursor) (close : Nat) : Text := (cursor.forward 1).sliceTo close

theorem ClosesTag.notMem_tagText (hc : cursor.ClosesTag close) :
    Mark.bracketClose ∉ cursor.tagText close := by
  intro hm
  obtain ⟨place, hplace⟩ := List.mem_iff_getElem?.mp hm
  exact @not_prefix_sliceTo (cursor.forward 1) [Mark.bracketClose] close hc (by decide) place
    (Text.singleton_prefix_drop_iff.mpr hplace)

theorem ClosesTag.length_tagText (hc : cursor.ClosesTag close) :
    cursor.offset + 1 + (cursor.tagText close).length = close := by
  have hle := Nat.le_of_lt (hc.lt_length (by decide))
  exact @offset_add_length_sliceTo (cursor.forward 1) close hc.start_le hle

theorem strip?_remaining_iff {rest : Text} :
    Sigil.bracketTag.strip? cursor.remaining = some rest ↔
      cursor.source[cursor.offset]? = some '[' ∧ (cursor.forward 1).remaining = rest := by
  rw [Sigil.strip?_eq_some_iff, remaining_forward, ← List.head?_drop]
  change cursor.remaining = '[' :: rest ↔ cursor.remaining.head? = some '[' ∧ _
  cases cursor.remaining with
  | nil => simp
  | cons c tail => simp

theorem ClosesTag.remaining_eq (hc : cursor.ClosesTag close)
    (ho : cursor.source[cursor.offset]? = some '[') :
    cursor.remaining =
      Recognizer.bracketed (cursor.tagText close) ++ cursor.source.drop (close + 1) := by
  have hcut := @cut?_remaining_of_firstAt (cursor.forward 1) [Mark.bracketClose] close hc
  rw [← Text.cutAt?_eq_cut?, Text.cutAt?_eq_some_iff] at hcut
  rw [Recognizer.bracketed_append, ← Sigil.strip?_eq_some_iff, strip?_remaining_iff]
  exact ⟨ho, hcut.1⟩

theorem ClosesTag.tagEnds_iff (hc : cursor.ClosesTag close) {stop : Nat} :
    cursor.source.TagEnds close stop ↔
      stop = cursor.offset + tagStop (cursor.tagText close) (cursor.source.drop (close + 1)) := by
  have hlength := hc.length_tagText
  have hplus : ∀ size, close + 1 + size =
      cursor.offset + ((cursor.tagText close).length + 2 + size) := by
    intro size
    omega
  rw [Text.tagEnds_iff, tagStop, hplus]

theorem run_bracketTag_absent_iff : cursor.run Recognizer.bracketTag = .absent ↔
    ¬ (cursor.source[cursor.offset]? = some '[' ∧
      ∃ close, cursor.offset < close ∧ cursor.source[close]? = some ']') := by
  have hclose : Mark.bracketClose ∈ cursor.source.drop (cursor.offset + 1) ↔
      ∃ close, cursor.offset < close ∧ cursor.source[close]? = some ']' := Text.mem_drop_iff
  rw [run_eq_absent_iff, Recognizer.bracketTag_eq_absent_iff, ← hclose, not_and]
  constructor
  · intro h ho
    exact h _ (strip?_remaining_iff.mpr ⟨ho, rfl⟩)
  · intro h rest hs
    obtain ⟨ho, rfl⟩ := strip?_remaining_iff.mp hs
    exact h ho

theorem ClosesTag.run_eq_matched_iff (hc : cursor.ClosesTag close)
    (ho : cursor.source[cursor.offset]? = some '[') {found : Located Line} {stop : Nat} :
    cursor.run Recognizer.bracketTag = .matched found stop ↔
      ∃ name parameters, (cursor.tagText close).foldBreaks.ReadsTag name parameters ∧
        found = cursor.located (.tag .bracket name parameters) stop ∧
        cursor.source.TagEnds close stop := by
  have hmem := hc.notMem_tagText
  rw [Cursor.run_eq_matched_iff, hc.remaining_eq ho, hc.tagEnds_iff]
  constructor
  · rintro ⟨line, size, hm, hfound, hstop⟩
    obtain ⟨name, parameters, hi, rfl, rfl⟩ := (Recognizer.bracketTag_bracketed_iff hmem).mp hm
    exact ⟨name, parameters, (Recognizer.tagInside_iff hmem).mp hi, hfound, hstop⟩
  · rintro ⟨name, parameters, hi, hfound, hstop⟩
    have hi := (Recognizer.tagInside_iff hmem).mpr hi
    exact ⟨_, _, (Recognizer.bracketTag_bracketed_iff hmem).mpr ⟨name, parameters, hi, rfl, rfl⟩,
      hfound, hstop⟩

/-- A bracket tag is recognized exactly where its name is found between the brackets and parameters
are all that follows it. -/
theorem run_bracketTag_iff (cursor : Cursor) :
    (cursor.run Recognizer.bracketTag = .absent ↔
      ¬ (cursor.source[cursor.offset]? = some '[' ∧
        ∃ close, cursor.offset < close ∧ cursor.source[close]? = some ']')) ∧
    ∀ close, cursor.source[cursor.offset]? = some '[' → cursor.ClosesTag close →
      (∀ found stop, cursor.run Recognizer.bracketTag = .matched found stop ↔
        ∃ name parameters, (cursor.tagText close).foldBreaks.ReadsTag name parameters ∧
          found = cursor.located (.tag .bracket name parameters) stop ∧
          cursor.source.TagEnds close stop) ∧
      ((¬ ∃ name parameters, (cursor.tagText close).foldBreaks.ReadsTag name parameters) →
        ∃ refusal, cursor.run Recognizer.bracketTag = .refused refusal ∧
          (refusal.fault.code = .bracketTag ∨ refusal.fault.code = .parameter) ∧
          cursor.offset ≤ refusal.offset ∧ refusal.offset ≤ close) := by
  refine ⟨run_bracketTag_absent_iff, ?_⟩
  intro close ho hc
  refine ⟨fun _ _ => hc.run_eq_matched_iff ho, ?_⟩
  intro hnone
  cases hrun : cursor.run Recognizer.bracketTag with
  | absent =>
    have hstands := Text.singleton_prefix_drop_iff.mp hc.stands
    exact (run_bracketTag_absent_iff.mp hrun ⟨ho, close, hc.start_le, hstands⟩).elim
  | matched found stop =>
    obtain ⟨name, parameters, hi, -⟩ := (hc.run_eq_matched_iff ho).mp hrun
    exact (hnone ⟨name, parameters, hi⟩).elim
  | refused refusal =>
    obtain ⟨inner, hr, rfl⟩ := run_eq_refused_iff.mp hrun
    obtain ⟨hcode, inside, after, htext, hinside, hoff⟩ := Recognizer.bracketTag_refused_between hr
    rw [hc.remaining_eq ho, ← Recognizer.bracketed_append] at htext
    obtain ⟨rfl, -⟩ := Recognizer.bracketed_append_inj hc.notMem_tagText hinside htext
    have hlength := hc.length_tagText
    refine ⟨_, rfl, hcode, Nat.le_add_right _ _, ?_⟩
    change cursor.offset + inner.offset ≤ close
    omega

theorem run_bracketTag_iff_padded :
    (Cursor.mk "x[7\rt a\n] \r\ny".toList 1).ClosesTag 8 ∧
      ((Cursor.mk "x[7\rt a\n] \r\ny".toList 1).tagText 8).foldBreaks.ReadsTag ['t']
        (.ofList [(['a'], .flag)]) ∧
      Text.TagEnds "x[7\rt a\n] \r\ny".toList 8 12 := by
  have hc : (Cursor.mk "x[7\rt a\n] \r\ny".toList 1).ClosesTag 8 :=
    (@Text.firstAt_drop_iff _ _ 2 6).mp (Text.find?_eq_some_iff.mp (by decide))
  have hrun : (Cursor.mk "x[7\rt a\n] \r\ny".toList 1).run Recognizer.bracketTag =
      .matched ((Cursor.mk "x[7\rt a\n] \r\ny".toList 1).located
        (.tag .bracket ['t'] (.ofList [(['a'], .flag)])) 12) 12 := by
    decide +kernel
  obtain ⟨name, parameters, hread, hfound, hends⟩ :=
    (((run_bracketTag_iff _).2 8 rfl hc).1 _ _).mp hrun
  obtain ⟨-, rfl, rfl⟩ := Line.tag.inj (congrArg Located.content hfound)
  exact ⟨hc, hread, hends⟩

end Cursor

end Playscript
