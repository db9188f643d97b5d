import Playscript.Proofs.LineGrammar

/-!
# Bounds of recognizers

A match moves on, stays inside the text at hand and parts no line break. A refusal carries a code of
its own construct and points into the text, or just past its end.
-/

namespace Playscript

structure Text.IsCut (text : Text) (stop : Nat) : Prop where
  pos : 0 < stop
  le_length : stop ≤ text.length
  whole : ¬ text.PartsBreak stop

namespace Recognizer

variable {text : Text} {line : Line} {size : Nat} {refusal : Refusal}

theorem isCut_size (hne : text ≠ []) : text.IsCut (PhysicalLine.ofText text).size := by
  constructor
  · exact PhysicalLine.size_pos hne
  · exact PhysicalLine.size_le_length text
  · have h := PhysicalLine.not_partsBreak text 0
    rwa [List.drop_zero, Nat.zero_add] at h

theorem isCut_add_size {front : Text} (hne : front ≠ []) (after : Text) :
    (front ++ after).IsCut (front.length + (PhysicalLine.ofText after).size) := by
  constructor
  · have hpos := List.length_pos_iff.mpr hne
    omega
  · have hle := PhysicalLine.size_le_length after
    rw [List.length_append]
    omega
  · have h := PhysicalLine.not_partsBreak (front ++ after) front.length
    rwa [List.drop_left] at h

theorem TakesLine.isCut (h : TakesLine line text size) (hk : line.kind ≠ .prose) :
    text.IsCut size := by
  obtain ⟨hs, rfl⟩ := h
  apply isCut_size
  rintro rfl
  generalize hc : (PhysicalLine.ofText []).content = content at hs
  change [] = content at hc
  cases hs with
  | escaped kept => exact hk rfl
  | prose hkept => exact hk rfl
  | _ => cases hc

theorem comment_isCut (h : comment text = .matched line size) : text.IsCut size := by
  obtain ⟨hk, ht⟩ := comment_sound h
  exact ht.isCut (by rw [hk]; decide)

theorem cue_isCut (h : cue text = .matched line size) : text.IsCut size := by
  obtain ⟨hk, ht⟩ := cue_sound h
  apply ht.isCut
  rcases hk with hk | hk
  · rw [hk]; decide
  · rw [hk]; decide

theorem label_isCut (h : label text = .matched line size) : text.IsCut size := by
  obtain ⟨hk, ht⟩ := label_sound h
  exact ht.isCut (by rw [hk]; decide)

theorem lineTag_isCut (h : lineTag text = .matched line size) : text.IsCut size := by
  obtain ⟨hk, ht⟩ := lineTag_sound h
  exact ht.isCut (by rw [hk]; decide)

theorem prose_isCut (h : prose text = .matched line size) : text.IsCut size := by
  obtain ⟨-, hne, -, rfl⟩ := prose_sound h
  exact isCut_size hne

theorem blockComment_isCut (h : blockComment text = .matched line size) : text.IsCut size := by
  obtain ⟨body, after, rfl, -, -, -, -, rfl⟩ := blockComment_eq_matched_iff.mp h
  have hne : '/' :: '*' :: (body ++ ['*', '/']) ≠ [] := List.cons_ne_nil _ _
  have hcut := isCut_add_size hne after
  simpa [Sigil.text] using hcut

theorem bracketTag_isCut (h : bracketTag text = .matched line size) : text.IsCut size := by
  obtain ⟨inside, after, -, -, -, -, rfl, -, -, -, -, -, -, -, rfl⟩ := bracketTag_sound h
  have hne : '[' :: (inside ++ [']']) ≠ [] := List.cons_ne_nil _ _
  have hcut := isCut_add_size hne after
  have htext : Sigil.bracketTag.text ++ (inside ++ Mark.bracketClose :: after) =
      '[' :: (inside ++ [']']) ++ after := by simp [Sigil.text, Mark.bracketClose]
  have hlength : inside.length + 2 = ('[' :: (inside ++ [']'])).length := by simp
  rw [htext, tagStop, hlength]
  split
  · exact hcut
  · refine ⟨by simp, by simp, ?_⟩
    rintro ⟨hlast, -⟩
    rw [Nat.add_zero, List.take_left, ← List.cons_append, List.getLast?_concat] at hlast
    cases hlast

theorem comment_ne_refused (text : Text) (refusal : Refusal) : comment text ≠ .refused refusal := by
  intro h
  unfold comment at h
  split at h
  · cases h
  · cases h

theorem prose_ne_refused (text : Text) (refusal : Refusal) : prose text ≠ .refused refusal := by
  intro h
  unfold prose at h
  split at h
  · cases h
  · dsimp only at h
    split at h
    · cases h
    · cases h

theorem blockComment_refused (h : blockComment text = .refused refusal) :
    refusal.fault.code = .blockComment ∧ refusal.offset < text.length := by
  unfold blockComment at h
  split at h
  · cases h
  next rest hs =>
  obtain rfl := Sigil.strip?_eq_some_iff.mp hs
  split at h
  · obtain rfl := Outcome.refused.inj h
    exact ⟨rfl, Nat.succ_pos _⟩
  next body after hcut =>
  obtain ⟨rfl, -⟩ := Text.cut?_pair_sound hcut
  dsimp only at h
  split at h
  · obtain rfl := Outcome.refused.inj h
    exact ⟨rfl, Nat.succ_pos _⟩
  split at h
  next hline =>
    obtain rfl := Outcome.refused.inj h
    refine ⟨rfl, ?_⟩
    have hshown : (after.takeWhile isPadding).length ≠ after.length := by
      intro hlength
      have hall := (List.takeWhile_sublist isPadding).eq_of_length hlength
      rw [List.takeWhile_eq_self_iff] at hall
      have hcontent : ∀ c ∈ (PhysicalLine.ofText after).content, isPadding c := fun c hc =>
        hall c ((List.takeWhile_sublist _).subset hc)
      rw [PhysicalLine.isPadding, List.all_eq_true.mpr hcontent] at hline
      cases hline
    have hpad := (List.takeWhile_sublist (p := isPadding) (l := after)).length_le
    simp only [Sigil.text, List.length_append, List.length_cons, List.length_nil]
    omega
  · cases h

theorem length_content_le (text : Text) : (PhysicalLine.ofText text).content.length ≤ text.length :=
  (List.takeWhile_sublist _).length_le

theorem cue_refused (h : cue text = .refused refusal) :
    refusal.fault.code = .cue ∧ refusal.offset ≤ text.length := by
  unfold cue at h
  split at h
  · cases h
  next rest hs =>
  obtain rfl : text = '#' :: rest := Sigil.strip?_eq_some_iff.mp hs
  have hlen := length_content_le rest
  obtain ⟨space, hcontent, -⟩ :=
    Text.trimRight_eq_iff.mp (rfl : (PhysicalLine.ofText rest).content.trimRight = _)
  have hcore := congrArg List.length hcontent
  dsimp only at h
  generalize (PhysicalLine.ofText rest).content.trimRight = core at h hcore
  rw [List.length_append] at hcore
  split at h
  · cases h
  split at h
  · cases h
  next name emotion hcut =>
  obtain ⟨rfl, -⟩ := Text.cutAt?_eq_some_iff.mp hcut
  rw [List.length_append, List.length_cons] at hcore
  split at h
  · obtain rfl := Outcome.refused.inj h
    exact ⟨rfl, by simp⟩
  split at h
  next first second hsecond =>
    obtain ⟨rfl, -⟩ := Text.cutAt?_eq_some_iff.mp hsecond
    rw [List.length_append, List.length_cons] at hcore
    obtain rfl := Outcome.refused.inj h
    refine ⟨rfl, ?_⟩
    simp only [List.length_cons]
    omega
  split at h
  · obtain rfl := Outcome.refused.inj h
    refine ⟨rfl, ?_⟩
    simp only [List.length_cons]
    omega
  · cases h

theorem label_refused (h : label text = .refused refusal) :
    refusal.fault.code = .label ∧ refusal.offset ≤ text.length := by
  unfold label at h
  split at h
  · cases h
  next rest hs =>
  obtain rfl : text = '*' :: rest := Sigil.strip?_eq_some_iff.mp hs
  have hlen := length_content_le rest
  have hsplit := Text.length_takeWhile_add isNameChar (PhysicalLine.ofText rest).content
  dsimp only at h
  split at h
  · obtain rfl := Outcome.refused.inj h
    refine ⟨?_, by simp⟩
    split
    · rfl
    · rfl
  split at h
  · split at h
    · cases h
    · obtain rfl := Outcome.refused.inj h
      refine ⟨rfl, ?_⟩
      simp only [List.length_cons]
      omega
  next tail hafter =>
    have htail := congrArg List.length (Text.after?_eq_some_iff.mp hafter)
    simp only [List.length_append, List.length_cons, List.length_nil] at htail
    have halternate := (List.takeWhile_sublist (p := isNameChar) (l := tail)).length_le
    split at h
    · obtain rfl := Outcome.refused.inj h
      refine ⟨rfl, ?_⟩
      simp only [List.length_cons]
      omega
    split at h
    · cases h
    · obtain rfl := Outcome.refused.inj h
      refine ⟨rfl, ?_⟩
      simp only [List.length_cons]
      omega

theorem lineTag_refused (h : lineTag text = .refused refusal) :
    (refusal.fault.code = .lineTag ∨ refusal.fault.code = .parameter) ∧
      refusal.offset ≤ text.length := by
  unfold lineTag at h
  split at h
  · cases h
  next rest hs =>
  obtain rfl : text = '@' :: rest := Sigil.strip?_eq_some_iff.mp hs
  have hlen := length_content_le rest
  have hsplit := Text.length_takeWhile_add isNameChar (PhysicalLine.ofText rest).content
  dsimp only at h
  split at h
  · obtain rfl := Outcome.refused.inj h
    refine ⟨Or.inl ?_, by simp⟩
    split
    · rfl
    · rfl
  · obtain ⟨hcode, hoff⟩ := tagBody_refused h
    refine ⟨hcode, ?_⟩
    simp only [List.length_cons]
    omega

/-- A bracket tag is refused at a place from its opening bracket to its closing bracket. -/
theorem bracketTag_refused_between (h : bracketTag text = .refused refusal) :
    (refusal.fault.code = .bracketTag ∨ refusal.fault.code = .parameter) ∧
      ∃ inside after, text = Sigil.bracketTag.text ++ (inside ++ Mark.bracketClose :: after) ∧
        Mark.bracketClose ∉ inside ∧ refusal.offset ≤ inside.length + 1 := by
  unfold bracketTag at h
  split at h
  · cases h
  next rest hs =>
  obtain rfl := Sigil.strip?_eq_some_iff.mp hs
  split at h
  · cases h
  next inside after hcut =>
  obtain ⟨rfl, hinside⟩ := Text.cutAt?_eq_some_iff.mp hcut
  suffices hsuff : (refusal.fault.code = .bracketTag ∨ refusal.fault.code = .parameter) ∧
      refusal.offset ≤ inside.length + 1 from
    ⟨hsuff.1, inside, after, rfl, hinside, hsuff.2⟩
  have hbody := Text.length_foldBreaks inside
  dsimp only at h
  generalize inside.foldBreaks = body at h hbody
  have hskip := Text.length_takeWhile_add (!isNameChar ·) body
  have hname := Text.length_takeWhile_add isIdentifierChar (body.dropWhile (!isNameChar ·))
  split at h
  · obtain rfl := Outcome.refused.inj h
    exact ⟨Or.inl rfl, Nat.zero_le _⟩
  split at h
  · obtain rfl := Outcome.refused.inj h
    refine ⟨Or.inl rfl, ?_⟩
    have hspace := (List.takeWhile_sublist (p := isSpace) (l := body)).length_le
    dsimp only
    omega
  · obtain ⟨hcode, hoff⟩ := tagBody_refused h
    refine ⟨hcode, ?_⟩
    omega

theorem bracketTag_refused (h : bracketTag text = .refused refusal) :
    (refusal.fault.code = .bracketTag ∨ refusal.fault.code = .parameter) ∧
      refusal.offset < text.length := by
  obtain ⟨hcode, inside, after, rfl, -, hoff⟩ := bracketTag_refused_between h
  refine ⟨hcode, ?_⟩
  simp only [Sigil.text, List.length_append, List.length_cons, List.length_nil]
  omega

end Recognizer

end Playscript
