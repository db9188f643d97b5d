import Playscript.Proofs.LineEndings
import Playscript.Proofs.Places

/-!
# Offsets before and after unification

An offset that parts no break has a counterpart in the unified text, on the same line and at the
same column.
-/

namespace Playscript

variable {text front rest more : Text} {near far : Nat} {p : Char → Bool}

theorem Place.afterText_flat (h : text.hasBreak = false) (place : Place) :
    place.afterText text = ⟨place.line, place.column + text.length⟩ := by
  induction text generalizing place with
  | nil => rfl
  | cons c text ih =>
    rw [Text.hasBreak_cons, Bool.or_eq_false_iff] at h
    have hc : c ≠ '\n' := by
      rintro rfl
      cases h.1
    have hstep : place.afterText (c :: text) = (place.next c).afterText text := rfl
    rw [hstep, ih h.2, next, if_neg hc, List.length_cons]
    simp only [Nat.add_right_comm, Nat.add_assoc]

theorem Place.afterText_line (h : text.hasBreak = false) (rest : Text) :
    first.afterText (text ++ '\n' :: rest) =
      ⟨(first.afterText rest).line + 1, (first.afterText rest).column⟩ := by
  have hsplit : first.afterText (text ++ '\n' :: rest) =
      ((first.afterText text).next '\n').afterText rest := List.foldl_append
  rw [hsplit, afterText_flat h]
  exact afterText_add rest first 1

namespace Text

/-- The offset `near` parts no line break, and `far` is its counterpart in the unified text. -/
def Meets (text : Text) (near far : Nat) : Prop :=
  ∃ front rest, text = front ++ rest ∧ Apart front rest ∧ near = front.length ∧
    far = front.unifyBreaks.length

def OnLine (text : Text) (offset : Nat) : Prop :=
  offset < text.length ∨ offset = text.length ∧ text.endsInBreak = false

theorem meets_append (h : Apart front rest) :
    (front ++ rest).Meets front.length front.unifyBreaks.length :=
  ⟨front, rest, rfl, h, rfl, rfl⟩

theorem meets_zero (text : Text) : text.Meets 0 0 :=
  @meets_append [] text (apart_of_flat rfl)

theorem meets_flat (h : front.hasBreak = false) (rest : Text) :
    (front ++ rest).Meets front.length front.length := by
  have hm : Meets (front ++ rest) _ _ := meets_append (apart_of_flat h)
  rwa [unifyBreaks_eq_self h] at hm

theorem meets_takeWhile (h : hasBreak (text.takeWhile p) = false) :
    text.Meets (text.takeWhile p).length (text.takeWhile p).length := by
  have hm := meets_flat h (text.dropWhile p)
  rwa [List.takeWhile_append_dropWhile] at hm

/-- Where a run stops no break is parted. -/
theorem meets_run (hp : p '\r' = p '\n') (text : Text) :
    text.Meets (text.takeWhile p).length (text.unifyBreaks.takeWhile p).length := by
  obtain ⟨hsplit, hrun, hstop⟩ := run_split p text
  rw [takeWhile_unifyBreaks hp]
  exact ⟨_, _, hsplit, apart_run hp hrun hstop, rfl, rfl⟩

theorem Meets.append (h : Apart front rest) (hm : rest.Meets near far) :
    (front ++ rest).Meets (front.length + near) (front.unifyBreaks.length + far) := by
  obtain ⟨first, last, rfl, hapart, rfl, rfl⟩ := hm
  refine ⟨front ++ first, last, by rw [List.append_assoc], h.append hapart,
    by rw [List.length_append], ?_⟩
  rw [unifyBreaks_append h.of_append_right, List.length_append]

theorem Meets.cons {c : Char} (h : isBreak c = false) (hm : rest.Meets near far) :
    Meets (c :: rest) (near + 1) (far + 1) := by
  have hflat : hasBreak [c] = false := by rw [hasBreak_cons, h]; rfl
  have happend := hm.append (apart_of_flat hflat)
  rwa [unifyBreaks_eq_self hflat, List.length_singleton, Nat.add_comm 1, Nat.add_comm 1] at happend

theorem Meets.enclosed {opening closing : Text} (ho : opening.hasBreak = false)
    (hc : closing.hasBreak = false) (hne : closing ≠ []) (inside : Text)
    (hm : rest.Meets near far) :
    Meets (opening ++ (inside ++ (closing ++ rest)))
      (inside.length + (opening.length + closing.length) + near)
      (inside.unifyBreaks.length + (opening.length + closing.length) + far) := by
  have happend : Meets (opening ++ (inside ++ (closing ++ rest))) _ _ :=
    ((hm.append (apart_of_flat hc)).append (apart_before_flat hc hne)).append (apart_of_flat ho)
  rw [unifyBreaks_eq_self hc, unifyBreaks_eq_self ho] at happend
  have hoffset : ∀ count offset, opening.length + (count + (closing.length + offset)) =
      count + (opening.length + closing.length) + offset := by
    intro count offset
    omega
  rwa [hoffset, hoffset] at happend

/-- An offset keeps its counterpart when more text follows. -/
theorem Meets.extend (hm : text.Meets near far) (h : more.head? ≠ some '\n') :
    (text ++ more).Meets near far := by
  obtain ⟨front, rest, rfl, hapart, rfl, rfl⟩ := hm
  refine ⟨front, rest ++ more, by rw [List.append_assoc], ?_, rfl, rfl⟩
  cases rest with
  | nil => exact apart_of_head h
  | cons c rest => exact hapart

theorem Meets.drop_eq (hm : text.Meets near far) :
    text.unifyBreaks.drop far = unifyBreaks (text.drop near) := by
  obtain ⟨front, rest, rfl, hapart, rfl, rfl⟩ := hm
  rw [unifyBreaks_append hapart, List.drop_left, List.drop_left]

theorem Meets.add {near' far' : Nat} (hm : text.Meets near far)
    (hn : Meets (text.drop near) near' far') : text.Meets (near + near') (far + far') := by
  obtain ⟨front, rest, rfl, hapart, rfl, rfl⟩ := hm
  rw [List.drop_left] at hn
  exact hn.append hapart

theorem Meets.of_length (hm : (front ++ rest).Meets front.length far) :
    Apart front rest ∧ far = front.unifyBreaks.length := by
  obtain ⟨first, last, htext, hapart, hlength, rfl⟩ := hm
  obtain ⟨rfl, rfl⟩ := List.append_inj htext hlength
  exact ⟨hapart, rfl⟩

theorem Meets.pos_iff (hm : text.Meets near far) : 0 < near ↔ 0 < far := by
  obtain ⟨front, rest, rfl, hapart, rfl, rfl⟩ := hm
  rw [List.length_pos_iff, List.length_pos_iff, ne_eq, ne_eq, unifyBreaks_eq_nil_iff]

theorem meets_size (text : Text) :
    text.Meets (PhysicalLine.ofText text).size (PhysicalLine.ofText text.unifyBreaks).size := by
  have ho := PhysicalLine.opens_ofText text
  refine ⟨(PhysicalLine.ofText text).text, _, ho.text_eq, ho.apart,
    (PhysicalLine.text_length _).symm, ?_⟩
  rw [ho.unifyBreaks_text, PhysicalLine.text_length, PhysicalLine.ofText_unifyBreaks]

theorem meets_content (h : near ≤ (PhysicalLine.ofText text).content.length) :
    text.Meets near near := by
  have htake := PhysicalLine.take_content h
  have hflat : hasBreak (text.take near) = false := by
    rw [htake]
    exact hasBreak_of_subset (PhysicalLine.hasBreak_content text)
      fun c hc => List.mem_of_mem_take hc
  have hlength : (text.take near).length = near := by
    rw [htake, List.length_take, Nat.min_eq_left h]
  have hm := meets_flat hflat (text.drop near)
  rwa [List.take_append_drop, hlength] at hm

theorem onLine_content (h : near ≤ (PhysicalLine.ofText text).content.length) :
    text.OnLine near := by
  by_cases hlt : near < text.length
  · exact Or.inl hlt
  have hprefix := PhysicalLine.take_content (Nat.le_refl (PhysicalLine.ofText text).content.length)
  rw [List.take_length] at hprefix
  have hlength := congrArg List.length hprefix
  rw [List.length_take] at hlength
  have htext : (PhysicalLine.ofText text).content = text := by
    rw [← hprefix]
    exact List.take_of_length_le (by omega)
  have hflat := PhysicalLine.hasBreak_content text
  rw [htext, hasBreak_eq_false_iff] at hflat
  rw [htext] at h
  exact Or.inr ⟨by omega, @endsInBreak_append_flat [] text rfl hflat⟩

theorem OnLine.append (h : rest.OnLine near) (hne : rest ≠ []) :
    (front ++ rest).OnLine (front.length + near) := by
  rw [OnLine, List.length_append, endsInBreak_append hne]
  rcases h with hlt | ⟨heq, hend⟩
  · exact Or.inl (by omega)
  · exact Or.inr ⟨by omega, hend⟩

end Text

/-- A place behind the first line is in what follows the line, or parts its break. -/
theorem PhysicalLine.Opens.split {line : PhysicalLine} {behind : Text}
    (h : line.Opens (front ++ behind) rest) (ha : Text.Apart front behind)
    (hl : line.content.length < front.length) :
    ∃ more, front = line.text ++ more ∧ rest = more ++ behind := by
  rcases List.append_eq_append_iff.mp h.text_eq with ⟨middle, hline, rfl⟩ | ⟨more, hfront, hrest⟩
  · by_cases hm : middle = []
    · exact ⟨[], by rw [hline, hm, List.append_nil, List.append_nil], by rw [hm]; rfl⟩
    -- Only CRLF has a place inside it.
    exfalso
    rw [PhysicalLine.text] at hline
    rcases List.append_eq_append_iff.mp hline with ⟨e, rfl, he⟩ | ⟨e, hcontent, -⟩
    · have hpos : e ≠ [] := by
        rintro rfl
        rw [List.append_nil] at hl
        exact Nat.lt_irrefl _ hl
      obtain ⟨c, e, rfl⟩ := List.exists_cons_of_ne_nil hpos
      obtain ⟨d, middle, rfl⟩ := List.exists_cons_of_ne_nil hm
      cases hending : line.ending with
      | crlf =>
        rw [hending] at he
        cases e with
        | nil =>
          obtain ⟨rfl, hd⟩ : '\r' = c ∧ ['\n'] = d :: middle := List.cons.inj he
          obtain rfl : '\n' = d := (List.cons.inj hd).1
          exact ha ⟨by simp, rfl⟩
        | cons d e => simp [LineEnd.text] at he
      | _ => simp [hending, LineEnd.text] at he
    · rw [hcontent, List.length_append] at hl
      omega
  · exact ⟨more, hfront, hrest⟩

namespace Text

theorem OnLine.later {line : PhysicalLine} {offset : Nat} (ho : text.OnLine (line.size + offset))
    (h : line.Opens text rest) (hl : line.content.length < line.size + offset) :
    rest ≠ [] ∧ rest.OnLine offset := by
  have hlength : text.length = line.size + rest.length := by
    rw [h.text_eq, List.length_append, PhysicalLine.text_length]
  rcases ho with hlt | ⟨heq, hend⟩
  · have hpos : offset < rest.length := by omega
    exact ⟨List.length_pos_iff.mp (by omega), Or.inl hpos⟩
  · by_cases hr : rest = []
    · subst hr
      rw [h.endsInBreak_eq, bne_eq_false_iff_eq] at hend
      rw [List.length_nil] at hlength
      rw [PhysicalLine.size, hend, LineEnd.text, List.length_nil] at heq hl hlength
      omega
    · rw [h.text_eq, endsInBreak_append hr] at hend
      exact ⟨hr, Or.inr ⟨by omega, hend⟩⟩

/-- An offset on a line is named by the place of its counterpart. -/
theorem Meets.exists_pointsAt (hm : text.Meets near far) (ho : text.OnLine near) (hne : text ≠ []) :
    ∃ index column, text.PointsAt near index column ∧
      Place.first.afterText (text.unifyBreaks.take far) = ⟨index + 1, column + 1⟩ := by
  obtain ⟨front, behind, htext, hapart, rfl, rfl⟩ := hm
  have htake : text.unifyBreaks.take front.unifyBreaks.length = front.unifyBreaks := by
    rw [htext, unifyBreaks_append hapart, List.take_left]
  rw [htake]
  clear htake
  induction text using line_induction generalizing front with
  | nil => exact (hne rfl).elim
  | line line text rest hne hopens ih =>
    subst htext
    by_cases hle : front.length ≤ line.content.length
    · have hprefix : front <+: line.content := by
        apply List.prefix_of_prefix_length_le (List.prefix_append front behind) _ hle
        rw [hopens.text_eq, PhysicalLine.text, List.append_assoc]
        exact List.prefix_append _ _
      have hflat : front.hasBreak = false :=
        hasBreak_of_subset (hasBreak_eq_false_iff.mpr hopens.content_flat)
          fun c hc => hprefix.subset hc
      refine ⟨0, front.length, pointsAt_first hopens hne hle, ?_⟩
      rw [unifyBreaks_eq_self hflat, Place.afterText_flat hflat, Place.first, Nat.add_comm 1]
    · obtain ⟨more, rfl, rfl⟩ := hopens.split hapart (by omega)
      rw [List.length_append, PhysicalLine.text_length] at hle ho ⊢
      obtain ⟨hrest, hon⟩ := ho.later hopens (by omega)
      obtain ⟨index, column, hpoints, hplace⟩ := ih hrest more rfl hapart.of_append_left hon
      refine ⟨index + 1, column, hpoints.later hopens hne, ?_⟩
      have hending : line.ending.unified = .lf :=
        LineEnd.unified_eq_lf_iff.mpr (hopens.ending_ne_missing hrest)
      have htext : line.unified.text ++ more.unifyBreaks =
          line.content ++ '\n' :: more.unifyBreaks := by
        rw [PhysicalLine.text, PhysicalLine.unified, hending, List.append_assoc]
        rfl
      rw [unifyBreaks_append hopens.apart.of_append_right, hopens.unifyBreaks_text, htext,
        Place.afterText_line (hasBreak_eq_false_iff.mpr hopens.content_flat), hplace]

end Text

end Playscript
